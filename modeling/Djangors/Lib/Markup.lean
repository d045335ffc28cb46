import Mathlib.Data.List.Basic

/-! # Readers of markup

Readers that take a text character by character, with CR, LF and CRLF as one end of a line, and texts in which the characters
of markup are written as references. -/

namespace Markup

section Readers
variable {ρ : Type} (advance : ρ → Char → Option ρ) (legal : Char → Bool)

/-- A reader, and whether a carriage return came last. -/
def step (s : ρ × Bool) (c : Char) : Option (ρ × Bool) :=
  if legal c = false then none
  else if c = '\n' ∧ s.2 then some (s.1, false)
  else (advance s.1 (if c = '\r' then '\n' else c)).map (·, c == '\r')

def run (s : ρ × Bool) (text : List Char) : Option (ρ × Bool) := text.foldlM (step advance legal) s

end Readers

/-- A text with its ends of lines as line feeds. -/
def lineEnds (returned : Bool) : List Char → List Char
  | [] => []
  | c :: text =>
    if c = '\n' ∧ returned then lineEnds false text else (if c = '\r' then '\n' else c) :: lineEnds (c == '\r') text

section Runs
variable {ρ : Type} {advance : ρ → Char → Option ρ} {legal : Char → Bool} {s s' : ρ × Bool} {r : ρ} {a b text : List Char}
  {c : Char} {returned : Bool}

theorem run_append : run advance legal s (a ++ b) = (run advance legal s a).bind fun s => run advance legal s b :=
  List.foldlM_append ..

theorem run_cons : run advance legal s (c :: text) = (step advance legal s c).bind fun s => run advance legal s text :=
  List.foldlM_cons ..

/-- What is read has no character but the legal ones. -/
theorem legal_of_run (h : run advance legal s text = some s') : ∀ c ∈ text, legal c = true := by
  induction text generalizing s with
  | nil => exact fun c hc => absurd hc List.not_mem_nil
  | cons c text ih =>
    rw [run_cons] at h
    obtain ⟨next, hstep, hrun⟩ := Option.bind_eq_some_iff.mp h
    rw [step] at hstep
    split at hstep
    · cases hstep
    · rename_i hlegal
      exact List.forall_mem_cons.mpr ⟨Bool.not_eq_false _ ▸ hlegal, ih hrun⟩

/-- A character that is no end of a line. -/
theorem step_plain (hlegal : legal c = true) (hcr : c ≠ '\r') (hlf : c ≠ '\n') :
    step advance legal (r, returned) c = (advance r c).map (·, false) := by
  rw [step, if_neg (by simp [hlegal]), if_neg fun h => hlf h.1, if_neg hcr, beq_false_of_ne hcr]

/-- A name is read by a mode that takes its characters. -/
theorem run_name (read : List Char → ρ) (f : Char → Char) {named : Char → Bool} {name : List Char}
    (hplain : ∀ c, named c = true → legal c = true ∧ c ≠ '\r' ∧ c ≠ '\n')
    (hread : ∀ text c, named c = true → advance (read text) c = some (read (text ++ [f c])))
    (h : ∀ c ∈ name, named c = true) :
    run advance legal (read text, false) name = some (read (text ++ name.map f), false) := by
  induction name generalizing text with
  | nil =>
    rw [List.map_nil, List.append_nil]
    rfl
  | cons c name ih =>
    obtain ⟨hc, hname⟩ := List.forall_mem_cons.mp h
    obtain ⟨hlegal, hcr, hlf⟩ := hplain c hc
    rw [run_cons, step_plain hlegal hcr hlf, hread text c hc, Option.map_some, Option.bind_some, ih hname, List.append_assoc,
      List.singleton_append, List.map_cons]

end Runs

/-! ### Numbers of characters -/

def digit? (base : Nat) (c : Char) : Option Nat :=
  let n := if c.isDigit then c.toNat - 48 else if c.isLower then c.toNat - 87 else if c.isUpper then c.toNat - 55 else base
  if n < base then some n else none

def number? (base : Nat) (digits : List Char) : Option Nat :=
  if digits = [] then none
  else digits.foldlM (fun n c => (digit? base c).map fun d => n * base + d) 0

/-! ### Ends of lines -/

theorem return_notMem_lineEnds {returned : Bool} {text : List Char} : '\r' ∉ lineEnds returned text := by
  induction text generalizing returned with
  | nil => exact List.not_mem_nil
  | cons c text ih =>
    rw [lineEnds]
    split
    · exact ih
    · rw [List.mem_cons, not_or]
      refine ⟨?_, ih⟩
      split
      · decide
      · rename_i hcr
        exact Ne.symm hcr

theorem lineEnds_eq_self {text : List Char} : lineEnds false text = text ↔ '\r' ∉ text := by
  refine ⟨fun h hmem => return_notMem_lineEnds (h.symm ▸ hmem), fun h => ?_⟩
  induction text with
  | nil => rfl
  | cons c text ih =>
    rw [List.mem_cons, not_or] at h
    obtain ⟨hc, htext⟩ := h
    rw [lineEnds, if_neg (by simp), if_neg (Ne.symm hc), beq_false_of_ne (Ne.symm hc), ih htext]

/-! ### Escaped text -/

section Escaped
variable {ρ : Type} {advance : ρ → Char → Option ρ} {legal : Char → Bool} {escapeChar : Char → List Char}
  {text written : List Char} {returned : Bool}

/-- Escaped text is read as the text, when each character is read from what is written for it. -/
theorem run_escape (read : List Char → ρ) (f : Char → Char)
    (hplain : ∀ text c, escapeChar c = [c] → c ≠ '\r' → advance (read text) c = some (read (text ++ [f c])))
    (hmarkup : ∀ text returned c, escapeChar c ≠ [c] → c ≠ '\r' ∧ c ≠ '\n' ∧
      run advance legal (read text, returned) (escapeChar c) = some (read (text ++ [f c]), false))
    (hlf : escapeChar '\n' = ['\n']) (hlegal : ∀ c ∈ written, legal c = true) :
    ∃ after, run advance legal (read text, returned) (written.flatMap escapeChar) =
      some (read (text ++ (lineEnds returned written).map f), after) := by
  induction written generalizing text returned with
  | nil =>
    rw [lineEnds, List.map_nil, List.append_nil]
    exact ⟨returned, rfl⟩
  | cons c written ih =>
    obtain ⟨hc, hwritten⟩ := List.forall_mem_cons.mp hlegal
    rw [List.flatMap_cons, run_append]
    by_cases hm : escapeChar c = [c]
    · rw [hm, run_cons, step, if_neg (by simp [hc]), lineEnds]
      by_cases hend : c = '\n' ∧ returned = true
      · rw [if_pos hend, if_pos hend]
        exact ih hwritten
      · have hd : escapeChar (if c = '\r' then '\n' else c) = [if c = '\r' then '\n' else c] ∧
            (if c = '\r' then '\n' else c) ≠ '\r' := by
          split
          · exact ⟨hlf, by decide⟩
          · rename_i hcr
            exact ⟨hm, hcr⟩
        obtain ⟨after, hrest⟩ := @ih (text ++ [f (if c = '\r' then '\n' else c)]) (c == '\r') hwritten
        rw [List.append_assoc] at hrest
        rw [if_neg hend, if_neg hend, hplain _ _ hd.1 hd.2]
        exact ⟨after, hrest⟩
    · obtain ⟨hcr, hlf', hread⟩ := hmarkup text returned c hm
      obtain ⟨after, hrest⟩ := @ih (text ++ [f c]) false hwritten
      rw [List.append_assoc] at hrest
      rw [hread, Option.bind_some, lineEnds, if_neg fun h => hlf' h.1, if_neg hcr, beq_false_of_ne hcr]
      exact ⟨after, hrest⟩

end Escaped
end Markup
