import Djangors.Http.Hosts
import Djangors.Lib.Utf8

/-! # Hosts that are passed on

The layer passes on the requests with an allowed host, and those where something else than a port stands behind one. -/

namespace Djangors.Http
open Migrations (CaseMap)

/-! ### The host of a value -/

/-- Where the search for the port cuts a value: behind a literal, and behind a name at its end or at a colon. -/
def Cut (host rest : List Char) : Prop := IsLiteral host ∨ IsName host ∧ (rest = [] ∨ rest.head? = some ':')

theorem IsPort.cut {host port : List Char} (hhost : IsLiteral host ∨ IsName host) (hport : IsPort port) : Cut host port := by
  refine hhost.imp_right fun hname => ⟨hname, ?_⟩
  rcases hport with rfl | ⟨digits, rfl, -⟩
  · exact .inl rfl
  · exact .inr rfl

theorem Cut.isHost {host rest : List Char} (h : Cut host rest) : IsLiteral host ∨ IsName host := h.imp_right And.left

/-- The port is cut off there. -/
theorem hostWithoutPort_append {host rest : List Char} (h : Cut host rest) : hostWithoutPort (host ++ rest) = host := by
  rcases h with ⟨address, haddress, rfl⟩ | ⟨⟨hbracket, hcolon⟩, hrest⟩
  · have hopen : ∀ c ∈ '[' :: address, (decide (c ≠ ']')) = true := by
      intro c hc
      rcases List.mem_cons.mp hc with rfl | hc
      · decide
      · exact decide_eq_true fun heq => haddress (heq ▸ hc)
    have hsplit : '[' :: (address ++ [']']) ++ rest = ('[' :: address) ++ ']' :: rest := by simp
    have hhead : (('[' :: address) ++ ']' :: rest).head? = some '[' := rfl
    have hclose : ']' ∈ ('[' :: address) ++ ']' :: rest := by simp
    rw [hsplit, hostWithoutPort, if_pos hhead, if_pos hclose, List.takeWhile_append_of_pos hopen,
      List.takeWhile_cons_of_neg (by simp), List.append_nil]
    rfl
  · have hhead : (host ++ rest).head? ≠ some '[' := by
      rw [List.head?_append]
      cases hh : host.head? with
      | none =>
        rcases hrest with rfl | hrest
        · simp
        · rw [Option.none_or, hrest]
          decide
      | some c => rwa [Option.some_or, ← hh]
    have hname : ∀ c ∈ host, (decide (c ≠ ':')) = true := fun c hc => decide_eq_true fun heq => hcolon (heq ▸ hc)
    rw [hostWithoutPort, if_neg hhead, List.takeWhile_append_of_pos hname]
    rcases hrest with rfl | hrest
    · simp
    · obtain ⟨tail, rfl⟩ := List.head?_eq_some_iff.mp hrest
      rw [List.takeWhile_cons_of_neg (by simp), List.append_nil]

/-- A value that opens a bracket and closes none. -/
def Unclosed (value : List Char) : Prop := value.head? = some '[' ∧ ']' ∉ value

/-- Every other value has a place where the port is cut off. -/
theorem exists_cut {value : List Char} (h : ¬ Unclosed value) : ∃ host rest, value = host ++ rest ∧ Cut host rest := by
  by_cases hbracket : value.head? = some '['
  · obtain ⟨tail, rfl⟩ := List.head?_eq_some_iff.mp hbracket
    have hclose : ']' ∈ tail := by
      by_contra hno
      exact h ⟨hbracket, by simp [hno]⟩
    obtain ⟨address, rest, rfl, haddress⟩ := List.eq_append_cons_of_mem hclose
    exact ⟨'[' :: (address ++ [']']), rest, by simp, .inl ⟨address, haddress, rfl⟩⟩
  · by_cases hcolon : ':' ∈ value
    · obtain ⟨host, rest, rfl, hhost⟩ := List.eq_append_cons_of_mem hcolon
      refine ⟨host, ':' :: rest, rfl, .inr ⟨⟨fun hopen => hbracket ?_, hhost⟩, .inr rfl⟩⟩
      rw [List.head?_append, hopen]
      rfl
    · exact ⟨value, [], by simp, .inr ⟨⟨hbracket, hcolon⟩, .inl rfl⟩⟩

theorem Cut.not_unclosed {host rest : List Char} (h : Cut host rest) : ¬ Unclosed (host ++ rest) := by
  rintro ⟨hopen, hclose⟩
  rcases h with ⟨address, -, rfl⟩ | ⟨⟨hbracket, -⟩, hrest⟩
  · exact hclose (by simp)
  · cases host with
    | nil =>
      rw [List.nil_append] at hopen
      rcases hrest with rfl | hrest
      · cases hopen
      · cases hrest.symm.trans hopen
    | cons c host => exact hbracket hopen

/-- An allowed value is a listed host where the value is cut, and a port. -/
theorem allowedValue_append {hosts : List String} {host rest : List Char} (hcut : Cut host rest) :
    AllowedValue hosts (host ++ rest) ↔ IsPort rest ∧ Listed hosts host := by
  constructor
  · rintro ⟨host', port, heq, hhost, hport, hlisted⟩
    have hsame : host' = host := by
      rw [← hostWithoutPort_append (hport.cut hhost), ← heq, hostWithoutPort_append hcut]
    subst hsame
    exact ⟨List.append_cancel_left heq ▸ hport, hlisted⟩
  · rintro ⟨hport, hlisted⟩
    exact ⟨host, rest, rfl, hcut.isHost, hport, hlisted⟩

theorem not_allowedValue {hosts : List String} {value : List Char} (h : Unclosed value) : ¬ AllowedValue hosts value := by
  rintro ⟨host, port, rfl, hhost, hport, -⟩
  exact (hport.cut hhost).not_unclosed h

/-! ### What is passed on -/

section Passed
variable [CaseMap] (hosts : List String) (authority : Option (List Char)) (req : HyperRequest)

/-- The inner service answers the request. -/
def PassedOn : Prop :=
  ∀ inner : HyperRequest → Response, (HostValidationLayer.new hosts).call authority req inner = .ok (inner req)

/-- A text is in the allow list in any case of Unicode. -/
def LowercaseListed (text : List Char) : Prop :=
  ∃ allowed ∈ hosts, CaseMap.toLowercase allowed = CaseMap.toLowercase (String.ofList text)

/-- The values that the layer treats by their hosts: a listed host ends the value or stands before a port, it differs
    from its entry in ASCII case only, and no entry holds an open bracket or stands for a header that is not ASCII. -/
structure PlainHosts : Prop where
  port : ∀ value host rest, hostStr authority req = some value → value = host ++ rest → Cut host rest →
    LowercaseListed hosts host → IsPort rest ∧ Listed hosts host
  closed : ∀ value, hostStr authority req = some value → Unclosed value → ¬ LowercaseListed hosts value
  readable : ∀ value, hostStr authority req = none → HasHost authority req value → ¬ AllowedValue hosts value

variable {hosts authority req}

theorem passedOn_iff : PassedOn hosts authority req ↔ (HostValidationLayer.new hosts).isValid authority req = true := by
  constructor
  · intro hall
    by_contra hinvalid
    have hself := hall fun _ => ⟨200, [], []⟩
    rw [HostValidationLayer.call, if_neg hinvalid] at hself
    cases hself
  · exact fun hvalid inner => if_pos hvalid

theorem isValid_new (hne : hosts ≠ []) :
    (HostValidationLayer.new hosts).isValid authority req = true ↔
      ∃ value, hostStr authority req = some value ∧ LowercaseListed hosts (hostWithoutPort value) := by
  have hfull : ¬ (HostValidationLayer.new hosts).allowedHosts.isEmpty = true := by
    rw [HostValidationLayer.new, List.isEmpty_map, List.isEmpty_iff]
    exact hne
  rw [HostValidationLayer.isValid, if_neg hfull]
  cases hostStr authority req with
  | none => simp
  | some value => simp [HostValidationLayer.new, LowercaseListed]

omit [CaseMap] in
/-- A text that `to_str` reads is the header. -/
theorem hasHost_of_hostStr {value : List Char} (h : hostStr authority req = some value) (other : List Char) :
    HasHost authority req other ↔ other = value := by
  rw [hostStr] at h
  rw [HasHost]
  cases hheader : req.headers.get "host".toList with
  | none =>
    simp only [hheader] at h
    simp only [h, Option.some.injEq]
    exact eq_comm
  | some hdr =>
    simp only [hheader, toStr] at h
    split at h
    · rename_i hvisible
      have hbytes : tokenBytes value = hdr := by
        rw [← Option.some.inj h]
        exact Text.bytes_byteChars fun b hb => visible_lt (List.all_eq_true.mp hvisible b hb)
      simp only [← hbytes]
      exact ⟨fun heq => by simpa using Text.bytes_injective heq, fun heq => by rw [heq]⟩
    · cases h

/-- A listed host is listed in lower case. -/
theorem Listed.lowercase
    (hlower : ∀ s t : String, s.toList.map Char.toLower = t.toList.map Char.toLower →
      CaseMap.toLowercase s = CaseMap.toLowercase t)
    {host : List Char} (h : Listed hosts host) : LowercaseListed hosts host := by
  obtain ⟨allowed, hmem, heq⟩ := h
  exact ⟨allowed, hmem, hlower _ _ (by rw [heq, String.toList_ofList])⟩

theorem PlainHosts.value_iff {value : List Char} (h : PlainHosts hosts authority req)
    (hvalue : hostStr authority req = some value)
    (hlower : ∀ s t : String, s.toList.map Char.toLower = t.toList.map Char.toLower →
      CaseMap.toLowercase s = CaseMap.toLowercase t) :
    LowercaseListed hosts (hostWithoutPort value) ↔ AllowedValue hosts value := by
  by_cases hunclosed : Unclosed value
  · have hself : hostWithoutPort value = value := by
      rw [hostWithoutPort, if_pos hunclosed.1, if_neg hunclosed.2]
    rw [hself]
    exact iff_of_false (h.closed value hvalue hunclosed) (not_allowedValue hunclosed)
  · obtain ⟨host, rest, rfl, hcut⟩ := exists_cut hunclosed
    rw [hostWithoutPort_append hcut, allowedValue_append hcut]
    exact ⟨h.port _ host rest hvalue rfl hcut, fun hallowed => hallowed.2.lowercase hlower⟩

end Passed

/-- The layer passes on exactly the requests with an allowed host, where it treats their values by their hosts. -/
theorem host_validation_exact_iff [CaseMap]
    (hlower : ∀ s t : String, s.toList.map Char.toLower = t.toList.map Char.toLower →
      CaseMap.toLowercase s = CaseMap.toLowercase t)
    {hosts : List String} (hne : hosts ≠ []) (authority : Option (List Char)) (req : HyperRequest) :
    (PassedOn hosts authority req ↔ ∃ value, HasHost authority req value ∧ AllowedValue hosts value) ↔
      PlainHosts hosts authority req := by
  rw [passedOn_iff, isValid_new hne]
  constructor
  · intro hexact
    refine ⟨?_, ?_, ?_⟩
    · rintro _ host rest hvalue rfl hcut hlisted
      obtain ⟨other, hother, hallowed⟩ := hexact.mp ⟨host ++ rest, hvalue, by rwa [hostWithoutPort_append hcut]⟩
      rw [(hasHost_of_hostStr hvalue other).mp hother] at hallowed
      exact (allowedValue_append hcut).mp hallowed
    · intro value hvalue hunclosed hlisted
      have hself : hostWithoutPort value = value := by
        rw [hostWithoutPort, if_pos hunclosed.1, if_neg hunclosed.2]
      obtain ⟨other, hother, hallowed⟩ := hexact.mp ⟨value, hvalue, by rwa [hself]⟩
      rw [(hasHost_of_hostStr hvalue other).mp hother] at hallowed
      exact not_allowedValue hunclosed hallowed
    · intro value hnone hhas hallowed
      obtain ⟨other, hother, -⟩ := hexact.mpr ⟨value, hhas, hallowed⟩
      rw [hnone] at hother
      cases hother
  · intro hplain
    constructor
    · rintro ⟨value, hvalue, hlisted⟩
      exact ⟨value, (hasHost_of_hostStr hvalue value).mpr rfl, (hplain.value_iff hvalue hlower).mp hlisted⟩
    · rintro ⟨value, hhas, hallowed⟩
      cases hstr : hostStr authority req with
      | none => exact absurd hallowed (hplain.readable value hstr hhas)
      | some text =>
        obtain rfl := (hasHost_of_hostStr hstr value).mp hhas
        exact ⟨value, rfl, (hplain.value_iff hstr hlower).mpr hallowed⟩

/-! ### Two hosts -/

def requestTo (host : String) : HyperRequest :=
  ⟨.get, "/".toList, [("host".toList, tokenBytes host.toList)], ⟨none, none⟩, .ok []⟩

theorem ascii_lower (s t : String) (h : s.toList.map Char.toLower = t.toList.map Char.toLower) :
    CaseMap.ascii.toLowercase s = CaseMap.ascii.toLowercase t := congrArg String.ofList h

theorem localhost_str : hostStr none (requestTo "localhost:8080") = some "localhost:8080".toList := by decide +kernel

theorem localhost_plain : @PlainHosts CaseMap.ascii ["LocalHost"] none (requestTo "localhost:8080") := by
  refine @PlainHosts.mk CaseMap.ascii _ _ _ ?_ ?_ ?_
  · rintro _ host rest hvalue rfl hcut -
    rw [localhost_str, Option.some_inj] at hvalue
    have hhost : host = "localhost".toList := by
      rw [← hostWithoutPort_append hcut, ← hvalue]
      decide +kernel
    subst hhost
    have hrest : rest = ":8080".toList := List.append_cancel_left (hvalue.symm.trans (by decide +kernel))
    subst hrest
    exact ⟨.inr ⟨"8080".toList, by simp, by simp, by simp⟩, "LocalHost", by simp, by decide +kernel⟩
  · intro value hvalue hunclosed
    rw [localhost_str, Option.some_inj] at hvalue
    subst hvalue
    exact absurd hunclosed.1 (by decide +kernel)
  · intro value hnone
    rw [localhost_str] at hnone
    cases hnone

/-- A request to a listed host with a port is passed on, and its host is an allowed one. -/
theorem localhost_exact :
    @PassedOn CaseMap.ascii ["LocalHost"] none (requestTo "localhost:8080") ↔
      ∃ value, HasHost none (requestTo "localhost:8080") value ∧ AllowedValue ["LocalHost"] value :=
  (@host_validation_exact_iff CaseMap.ascii ascii_lower ["LocalHost"] (by simp) none
    (requestTo "localhost:8080")).mpr localhost_plain

/-- A host with something else than digits behind its colon is passed on. -/
theorem junk_passed_on :
    @PassedOn CaseMap.ascii ["example.com"] none (requestTo "example.com:evil") ∧
      ¬ ∃ value, HasHost none (requestTo "example.com:evil") value ∧ AllowedValue ["example.com"] value := by
  constructor
  · exact (@passedOn_iff CaseMap.ascii _ _ _).mpr (by decide +kernel)
  · rintro ⟨value, hhas, hallowed⟩
    have hstr : hostStr none (requestTo "example.com:evil") = some ("example.com".toList ++ ":evil".toList) := by decide +kernel
    rw [(hasHost_of_hostStr hstr value).mp hhas] at hallowed
    have hcut : Cut "example.com".toList ":evil".toList := .inr ⟨⟨by decide +kernel, by decide +kernel⟩, .inr (by decide +kernel)⟩
    rcases ((allowedValue_append hcut).mp hallowed).1 with hnil | ⟨digits, heq, -, hdigits⟩
    · exact absurd hnil (by decide +kernel)
    · have hdigit := hdigits 'e' (by rw [← (List.cons.inj heq).2]; decide +kernel)
      cases hdigit

end Djangors.Http
