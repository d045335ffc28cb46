import Djangors.Forms.FormSets
import Djangors.Lib.Lists

/-! # Form sets

A submission is taken apart into the maps that it was put together of, and each is cleaned once. -/

namespace Djangors.Forms
namespace FormSet

/-! ### Names -/

section Names
variable {set : FormSet} {i j : Nat} {name name' start key stripped : List Char}

theorem stripPrefixOf_eq_some : stripPrefixOf start key = some stripped ↔ key = start ++ stripped := by
  rw [stripPrefixOf]
  constructor
  · intro h
    split at h
    · rename_i hstart
      obtain ⟨rest, rfl⟩ := List.isPrefixOf_iff_prefix.mp hstart
      rw [List.drop_left, Option.some.injEq] at h
      rw [h]
    · cases h
  · rintro rfl
    rw [if_pos (List.isPrefixOf_iff_prefix.mpr (List.prefix_append ..)), List.drop_left]

/-- The index of a form ends at the dash, so that no index is taken for a longer one. -/
theorem addPrefix_inj : set.addPrefix i name = set.addPrefix j name' ↔ i = j ∧ name = name' := by
  constructor
  · intro h
    simp only [addPrefix, formPrefixOf, List.append_assoc, List.cons_append, List.nil_append, List.append_cancel_left_eq,
      List.cons.injEq, true_and] at h
    have hleft := Text.span_digits i '-' rfl name
    have hright := Text.span_digits j '-' rfl name'
    rw [h] at hleft
    have hdigits := hleft.1.symm.trans hright.1
    have hrest := hleft.2.symm.trans hright.2
    rw [List.cons.injEq] at hrest
    refine ⟨?_, hrest.2⟩
    have hread := Text.digits?_toString i
    rw [hdigits, Text.digits?_toString] at hread
    exact (Option.some.inj hread).symm
  · rintro ⟨rfl, rfl⟩
    rfl

/-- No name of the management form is a name of a form. -/
theorem managementForm_notPrefixed {value : List Char} (h : (key, value) ∈ set.managementForm) : key ≠ set.addPrefix i name := by
  have hdigit : ∀ rest, (toString i).toList ++ '-' :: rest ≠ 'T' :: "OTAL_FORMS".toList ∧
      (toString i).toList ++ '-' :: rest ≠ 'I' :: "NITIAL_FORMS".toList := by
    intro rest
    obtain ⟨hne, hdigits⟩ := Text.digits_of_toString i
    obtain ⟨d, ds, hcons⟩ := List.exists_cons_of_ne_nil hne
    have hd := hdigits d (hcons ▸ List.mem_cons_self ..)
    rw [hcons]
    constructor
    · rintro heq
      rw [List.cons_append, List.cons.injEq] at heq
      rw [heq.1] at hd
      cases hd
    · rintro heq
      rw [List.cons_append, List.cons.injEq] at heq
      rw [heq.1] at hd
      cases hd
  intro heq
  simp only [managementForm, List.mem_cons, List.not_mem_nil, or_false, Prod.mk.injEq] at h
  simp only [addPrefix, formPrefixOf, List.append_assoc] at heq
  rcases h with ⟨rfl, -⟩ | ⟨rfl, -⟩
  · have hrest := List.append_cancel_left heq
    exact (hdigit name).1 (List.cons.inj hrest).2.symm
  · have hrest := List.append_cancel_left heq
    exact (hdigit name).2 (List.cons.inj hrest).2.symm

end Names

/-! ### Maps -/

section Maps
variable {set : FormSet} {i : Nat} {name : List Char}

/-- Under distinct keys, the map of a form has what is submitted under its names. -/
theorem lookup_subMap {entries : List (List Char × List Char)} (distinct : (entries.map (·.1)).Nodup) :
    (set.subMap i entries).lookup name = entries.lookup (set.addPrefix i name) := by
  have hfold (map : FieldMap) :
      (entries.foldl (set.insertEntry i) map).lookup name =
        (entries.lookup (set.addPrefix i name)).or (map.lookup name) := by
    induction entries generalizing map with
    | nil => rfl
    | cons entry entries ih =>
      obtain ⟨key, value⟩ := entry
      rw [List.map_cons, List.nodup_cons] at distinct
      rw [List.foldl_cons, ih distinct.2, List.lookup_cons, insertEntry]
      cases hstrip : stripPrefixOf (set.formPrefixOf i) key with
      | none =>
        have hne : set.addPrefix i name ≠ key := fun heq => by
          rw [stripPrefixOf_eq_some.mpr heq.symm] at hstrip
          cases hstrip
        rw [beq_eq_false_iff_ne.mpr hne]
      | some stripped =>
        have hkey : key = set.addPrefix i stripped := stripPrefixOf_eq_some.mp hstrip
        subst hkey
        by_cases hname : name = stripped
        · subst hname
          have hlater : entries.lookup (set.addPrefix i name) = none :=
            List.lookup_eq_none_iff.mpr fun entry hentry => bne_iff_ne.mpr fun heq =>
              distinct.1 (List.mem_map.mpr ⟨entry, hentry, heq.symm⟩)
          rw [hlater, beq_self_eq_true, Option.none_or, Option.some_or]
          exact Finmap.lookup_insert map
        · have hne : set.addPrefix i name ≠ set.addPrefix i stripped := fun heq => hname (addPrefix_inj.mp heq).2
          rw [beq_eq_false_iff_ne.mpr hne]
          congr 1
          exact Finmap.lookup_insert_of_ne map hname
  rw [subMap, hfold, Finmap.lookup_empty, Option.or_none]

/-- A submission has the management form, the entries of maps under the names of their forms, and entries that are named
    like those of no form. -/
structure Submits (set : FormSet) (maps : List FieldMap) (extra : List (List Char × List Char)) (data : Submission) : Prop where
  count : set.totalForms = maps.length
  entries : ∀ key value, (key, value) ∈ data.entries ↔ (key, value) ∈ set.managementForm ∨
    (∃ i map name, maps[i]? = some map ∧ map.lookup name = some value ∧ key = set.addPrefix i name) ∨ (key, value) ∈ extra
  extra : ∀ key value, (key, value) ∈ extra → ∀ i < maps.length, ∀ name, key ≠ set.addPrefix i name

variable {maps : List FieldMap} {extra : List (List Char × List Char)} {data : Submission}

theorem Submits.subMap_eq (h : Submits set maps extra data) {map : FieldMap} (hmap : maps[i]? = some map) :
    set.subMap i data.entries = map := by
  refine Finmap.ext_lookup fun name => ?_
  rw [lookup_subMap data.keys_nodup]
  refine Option.ext fun value => ?_
  constructor
  · intro hlookup
    rcases (h.entries _ _).mp (List.mem_of_lookup hlookup) with hmanagement | ⟨j, map', name', hmap', hvalue, hkey⟩ | hextra
    · exact absurd rfl (managementForm_notPrefixed hmanagement)
    · obtain ⟨rfl, rfl⟩ := addPrefix_inj.mp hkey
      cases hmap.symm.trans hmap'
      exact hvalue
    · exact absurd rfl (h.extra _ _ hextra i (List.getElem?_eq_some_iff.mp hmap).1 name)
  · intro hvalue
    exact List.lookup_of_mem data.keys_nodup ((h.entries _ _).mpr (.inr (.inl ⟨i, map, name, hmap, hvalue, rfl⟩)))

theorem Submits.subMaps_eq (h : Submits set maps extra data) :
    (List.range maps.length).map (fun i => set.subMap i data.entries) = maps := by
  refine List.ext_getElem? fun i => ?_
  by_cases hi : i < maps.length
  · rw [List.getElem?_map, List.getElem?_range hi, List.getElem?_eq_getElem hi]
    exact congrArg some (h.subMap_eq (List.getElem?_eq_getElem hi))
  · rw [List.getElem?_eq_none (by simpa using hi), List.getElem?_eq_none (by simpa using hi)]

theorem Submits.get_totalKey (h : Submits set maps extra data) :
    data.get set.totalKey = some (toString maps.length).toList := by
  refine List.lookup_of_mem data.keys_nodup ((h.entries _ _).mpr (.inl ?_))
  rw [← h.count]
  exact List.mem_cons_self ..

end Maps

/-! ### Cleaning -/

section Cleaning
variable {γ ε : Type} {set : FormSet} {maps : List FieldMap} {data : Submission} {cleanFn : FieldMap → Except ε γ}

/-- The error of a form, if there is one. -/
def errorOf : Except ε γ → Option ε
  | .ok _ => none
  | .error e => some e

/-- The result of a form, if it is cleaned. -/
def resultOf (set : FormSet) (cleanFn : FieldMap → Except ε γ) (map : FieldMap) : Option (FormSetFormResult γ) :=
  match cleanFn map with
  | .ok cleaned => some ⟨cleaned, set.deleteChecked map⟩
  | .error _ => none

/-- What the loop gathers from the maps of its rounds. -/
theorem foldl_cleanForm (is : List Nat) (cleaning : Cleaning γ ε) :
    is.foldl (set.cleanForm data cleanFn) cleaning =
      { calls := cleaning.calls ++ is.map fun i => set.subMap i data.entries
        cleanedForms := cleaning.cleanedForms ++ (is.map fun i => set.subMap i data.entries).filterMap (resultOf set cleanFn)
        formErrors := cleaning.formErrors ++ (is.map fun i => set.subMap i data.entries).map fun map => errorOf (cleanFn map)
        hasErrors := cleaning.hasErrors ||
          (is.map fun i => set.subMap i data.entries).any fun map => (errorOf (cleanFn map)).isSome } := by
  induction is generalizing cleaning with
  | nil => simp
  | cons i is ih =>
    rw [List.foldl_cons, ih, List.map_cons, cleanForm]
    cases hclean : cleanFn (set.subMap i data.entries) with
    | ok cleaned => simp [hclean, resultOf, errorOf]
    | error errs => simp [hclean, resultOf, errorOf]

/-- The submission asks for a form to be deleted. -/
def Deletes (set : FormSet) (map : FieldMap) : Prop :=
  set.canDelete = true ∧ ∃ s, map.lookup "DELETE".toList = some s ∧ s ∈ ["on".toList, "true".toList, "1".toList]

/-- Each map is cleaned once, in order. The results are those of the forms with their delete flags, or, if a form has an
    error, there is a slot for each form, with its error if it has one. -/
structure Demultiplexed (set : FormSet) (maps : List FieldMap) (cleanFn : FieldMap → Except ε γ)
    (outcome : List FieldMap × Except (FormSetError ε) (List (FormSetFormResult γ))) : Prop where
  calls : outcome.1 = maps
  cleaned : (∀ map ∈ maps, ∃ cleaned, cleanFn map = .ok cleaned) → ∃ results, outcome.2 = .ok results ∧
    List.Forall₂ (fun map result => cleanFn map = .ok result.cleaned ∧ (result.delete = true ↔ Deletes set map)) maps results
  errors : (∃ map ∈ maps, ∃ e, cleanFn map = .error e) → ∃ slots, outcome.2 = .error ⟨[], slots⟩ ∧
    List.Forall₂ (fun map slot => ∀ e, slot = some e ↔ cleanFn map = .error e) maps slots

theorem deleteChecked_iff (map : FieldMap) : set.deleteChecked map = true ↔ Deletes set map := by
  rw [deleteChecked, Bool.and_eq_true, Option.any_eq_true, Deletes]
  simp

theorem resultOf_ok {map : FieldMap} {cleaned : γ} (h : cleanFn map = .ok cleaned) :
    resultOf set cleanFn map = some ⟨cleaned, set.deleteChecked map⟩ := by
  rw [resultOf, h]

/-- Forms that are all cleaned have their results in order. -/
theorem filterMap_resultOf (h : ∀ map ∈ maps, ∃ cleaned, cleanFn map = .ok cleaned) :
    List.Forall₂ (fun map result => cleanFn map = .ok result.cleaned ∧ (result.delete = true ↔ Deletes set map)) maps
      (maps.filterMap (resultOf set cleanFn)) := by
  induction maps with
  | nil => exact .nil
  | cons map maps ih =>
    obtain ⟨cleaned, hcleaned⟩ := h map (List.mem_cons_self ..)
    rw [List.filterMap_cons_some (resultOf_ok hcleaned)]
    exact .cons ⟨hcleaned, deleteChecked_iff map⟩ (ih fun map hmap => h map (List.mem_cons_of_mem _ hmap))

theorem errorOf_eq_some {result : Except ε γ} {e : ε} : errorOf result = some e ↔ result = .error e := by
  cases result <;> simp [errorOf]

theorem Submits.managementOf_eq {extra : List (List Char × List Char)} (h : Submits set maps extra data)
    (hmax : maps.length ≤ set.maxNum) : set.managementOf data = (maps.length, []) := by
  have hlt : maps.length < 2 ^ 64 := h.count ▸ set.counts_lt.1
  rw [managementOf, h.get_totalKey]
  simp only [Text.parseUnsigned_toString hlt]
  exact if_neg (by omega)

/-- A submission of maps is taken apart into them. -/
theorem demultiplexed {extra : List (List Char × List Char)} (h : Submits set maps extra data) (hmax : maps.length ≤ set.maxNum) :
    Demultiplexed set maps cleanFn (set.cleanWith data cleanFn) := by
  have houtcome : set.cleanWith data cleanFn = (maps,
      if maps.any fun map => (errorOf (cleanFn map)).isSome then .error ⟨[], maps.map fun map => errorOf (cleanFn map)⟩
      else .ok (maps.filterMap (resultOf set cleanFn))) := by
    rw [cleanWith, h.managementOf_eq hmax]
    simp [foldl_cleanForm, h.subMaps_eq]
  rw [houtcome]
  refine ⟨rfl, fun hall => ⟨_, if_neg ?_, filterMap_resultOf hall⟩, fun hsome => ⟨_, if_pos ?_, ?_⟩⟩
  · rw [List.any_eq_true]
    rintro ⟨map, hmap, herror⟩
    obtain ⟨cleaned, hcleaned⟩ := hall map hmap
    rw [hcleaned] at herror
    cases herror
  · obtain ⟨map, hmap, e, herror⟩ := hsome
    exact List.any_eq_true.mpr ⟨map, hmap, by rw [herror]; rfl⟩
  · exact List.forall₂_map_right_iff.mpr <| List.forall₂_same.mpr fun map _ e => errorOf_eq_some

/-- More forms than the maximum are refused, and none is cleaned. -/
theorem refused {n : Nat} (htotal : (data.get set.totalKey).bind (Text.parseUnsigned (2 ^ 64)) = some n) (hmax : set.maxNum < n) :
    ∃ errors, set.cleanWith data cleanFn = ([], .error ⟨errors, []⟩) ∧ errors ≠ [] := by
  obtain ⟨s, hget, hparse⟩ := Option.bind_eq_some_iff.mp htotal
  have hmanagement : ∃ errors, set.managementOf data = (n, errors) ∧ errors ≠ [] := by
    rw [managementOf, hget]
    simp only [hparse]
    exact ⟨_, if_pos hmax, List.append_ne_nil_of_right_ne_nil _ (List.cons_ne_nil _ _)⟩
  obtain ⟨errors, heq, hne⟩ := hmanagement
  refine ⟨errors, ?_, hne⟩
  rw [cleanWith, heq]
  exact if_pos hne

end Cleaning

/-- A submission of at most as many maps as the maximum is taken apart into them, whatever else is submitted, and each is
    cleaned once; a count above the maximum is refused before any form is cleaned. -/
theorem formset_demultiplexes {γ ε : Type} (set : FormSet) (cleanFn : FieldMap → Except ε γ) :
    (∀ maps extra data, Submits set maps extra data → maps.length ≤ set.maxNum →
      Demultiplexed set maps cleanFn (set.cleanWith data cleanFn)) ∧
    ∀ data n, (data.get set.totalKey).bind (Text.parseUnsigned (2 ^ 64)) = some n → set.maxNum < n →
      ∃ errors, set.cleanWith data cleanFn = ([], .error ⟨errors, []⟩) ∧ errors ≠ [] :=
  ⟨fun _ _ _ h hmax => demultiplexed h hmax, fun _ _ htotal hmax => refused htotal hmax⟩

/-! ### Two forms -/

section Pages

theorem pages_counts : 2 < 2 ^ 64 ∧ 1 < 2 ^ 64 ∧ 10 < 2 ^ 64 := by decide

/-- A form set whose forms may be deleted. -/
def pages : FormSet where
  totalForms := 2
  initialForms := 1
  maxNum := 10
  canDelete := true
  counts_lt := pages_counts

def kept : FieldMap := (∅ : FieldMap).insert "title".toList "a".toList

def deleted : FieldMap := (∅ : FieldMap).insert "DELETE".toList "on".toList

theorem twoPages_nodup : ["form-10-title".toList, "form-1-DELETE".toList, "form-TOTAL_FORMS".toList, "form-0-title".toList,
    "form-INITIAL_FORMS".toList].Nodup := by
  decide

/-- The entries of two forms, and one that is named like an eleventh. -/
def twoPages : Submission where
  entries := [("form-10-title".toList, "x".toList), ("form-1-DELETE".toList, "on".toList), ("form-TOTAL_FORMS".toList, "2".toList),
    ("form-0-title".toList, "a".toList), ("form-INITIAL_FORMS".toList, "1".toList)]
  keys_nodup := twoPages_nodup

theorem twoPages_submits : Submits pages [kept, deleted] [("form-10-title".toList, "x".toList)] twoPages where
  count := rfl
  entries key value := by
    simp only [twoPages, managementForm, totalKey, initialKey, List.mem_cons, List.not_mem_nil, or_false]
    constructor
    · rintro (h | h | h | h | h) <;> cases h
      · exact .inr (.inr rfl)
      · exact .inr (.inl ⟨1, deleted, "DELETE".toList, rfl, Finmap.lookup_insert _, by decide⟩)
      · exact .inl (.inl (by decide))
      · exact .inr (.inl ⟨0, kept, "title".toList, rfl, Finmap.lookup_insert _, by decide⟩)
      · exact .inl (.inr (by decide))
    · rintro ((h | h) | ⟨i, map, name, hmap, hvalue, rfl⟩ | h)
      · exact .inr (.inr (.inl h))
      · exact .inr (.inr (.inr (.inr h)))
      · rcases i with _ | _ | i
        · cases hmap
          rw [kept, Finmap.lookup_insert'] at hvalue
          split at hvalue
          · rename_i hname
            cases hvalue
            subst hname
            exact .inr (.inr (.inr (.inl rfl)))
          · cases hvalue
        · cases hmap
          rw [deleted, Finmap.lookup_insert'] at hvalue
          split at hvalue
          · rename_i hname
            cases hvalue
            subst hname
            exact .inr (.inl rfl)
          · cases hvalue
        · cases hmap
      · exact .inl h
  extra key value h i hi name := by
    cases List.mem_singleton.mp h
    intro heq
    have heleven : pages.addPrefix 10 "title".toList = pages.addPrefix i name := heq
    have hten := (addPrefix_inj.mp heleven).1
    simp only [List.length_cons, List.length_nil] at hi
    omega

/-- A form that needs nothing. -/
def titleOf (map : FieldMap) : Except Unit (Option (List Char)) := .ok (map.lookup "title".toList)

/-- Both forms are cleaned, and the second is to be deleted. -/
theorem twoPages_cleaned : Demultiplexed pages [kept, deleted] titleOf (pages.cleanWith twoPages titleOf) :=
  (formset_demultiplexes pages titleOf).1 _ _ _ twoPages_submits (by decide)

end Pages

end FormSet
end Djangors.Forms
