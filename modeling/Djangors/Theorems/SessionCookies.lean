import Djangors.Lib.Json
import Djangors.Sessions.Cookie
import Djangors.Theorems.ResetTokens

/-! # What session cookies give back

The three parts of a cookie are Base64, which has no dot and one text for all bytes: a cookie is known from the text
that it signs, and it gives back what `serde_json` reads in that text. -/

namespace Djangors.Sessions
open Auth

variable {V : Type} {json : SerdeJson V} {hmac : List UInt8 → List UInt8 → List UInt8} {store : SignedCookieStore}

theorem message_toList (text : String) (expiresAt : Nat) :
    (cookieMessage text expiresAt).toList =
      (encodeBytes (Text.bytes text)).toList ++ '.' :: (encodeBytes (Text.bytes (toString expiresAt))).toList := by
  simp [cookieMessage]

theorem cookie_toList (text : String) (expiresAt : Nat) :
    (cookieText hmac store text expiresAt).toList = (cookieMessage text expiresAt).toList ++
      '.' :: Base64.encode (hmac store.key (Text.bytes (cookieMessage text expiresAt))) := by
  simp [cookieText, encodeBytes]

/-- What a cookie of the encoder gives back. -/
theorem decode_cookieText (text : String) {expiresAt : Nat} (hsecs : expiresAt < 2 ^ 64) (now : Duration) :
    store.decode json hmac now (cookieText hmac store text expiresAt).toList =
      if expiresAt ≤ now.asSecs then none
      else (json.fromSlice (Text.bytes text)).map fun data => ⟨data, false, false, false⟩ := by
  have hmsg : String.ofList ((encodeBytes (Text.bytes text)).toList ++
      '.' :: (encodeBytes (Text.bytes (toString expiresAt))).toList) = cookieMessage text expiresAt := by
    rw [← message_toList, String.ofList_toList]
  have hbytes (bytes : List UInt8) : Base64.decode (encodeBytes bytes).toList = some bytes := by
    rw [encodeBytes, String.toList_ofList, Base64.decode_encode]
  have hsplit : (cookieText hmac store text expiresAt).toList.splitOn '.' =
      [(encodeBytes (Text.bytes text)).toList, (encodeBytes (Text.bytes (toString expiresAt))).toList,
        (encodeBytes (hmac store.key (Text.bytes (cookieMessage text expiresAt)))).toList] := splitOn_token _ _ _
  rw [SignedCookieStore.decode, hsplit]
  simp only [hmsg, hbytes, decodeText_encodeBytes, Text.parseUnsigned_toString hsecs, Option.bind_eq_bind,
    Option.bind_some, if_true]
  split
  · rfl
  · cases json.fromSlice (Text.bytes text) <;> rfl

/-- What is known of a cookie that is accepted. -/
theorem decode_some {now : Duration} {cookie : List Char} {s : SessionInner V}
    (h : store.decode json hmac now cookie = some s) :
    ∃ msg mac, cookie = msg ++ '.' :: mac ∧ Base64.decode mac = some (hmac store.key (Text.bytes (String.ofList msg))) := by
  unfold SignedCookieStore.decode at h
  split at h
  · rename_i b64Json b64Expiry b64Mac hsplit
    obtain ⟨macBytes, hmacBytes, h⟩ := Option.bind_eq_some_iff.mp h
    split at h
    · rename_i htag
      refine ⟨b64Json ++ '.' :: b64Expiry, b64Mac, ?_, htag ▸ hmacBytes⟩
      have hparts : ['.'].intercalate (cookie.splitOn '.') = cookie := List.intercalate_splitOn '.'
      rw [hsplit] at hparts
      simpa [List.intercalate] using hparts.symm
    · cases h
  · cases h

section Issues
variable {issues : List (Issue V)} {issue : Issue V} {cookie : String} {expiresAt : Nat} {now : Duration}

theorem expiresAt_lt (h : store.expiresAt issue.surroundings.now = some expiresAt) : expiresAt < 2 ^ 64 := by
  obtain ⟨sum, -, rfl⟩ := Option.map_eq_some_iff.mp h
  exact sum.asSecs_lt

theorem issue_cookie (hexpiry : store.expiresAt issue.surroundings.now = some expiresAt) :
    issue.cookie json hmac store = some (cookieText hmac store (issue.text json) expiresAt) := by
  obtain ⟨sum, hsum, rfl⟩ := Option.map_eq_some_iff.mp hexpiry
  rw [Issue.cookie, SignedCookieStore.encode, hsum]
  rfl

/-- What the cookie of a session gives back. -/
theorem decode_issue (hcookie : issue.cookie json hmac store = some cookie)
    (hexpiry : store.expiresAt issue.surroundings.now = some expiresAt) (now : Duration) :
    store.decode json hmac now cookie.toList =
      if expiresAt ≤ now.asSecs then none
      else (json.fromSlice (Text.bytes (issue.text json))).map fun data => ⟨data, false, false, false⟩ := by
  rw [issue_cookie hexpiry] at hcookie
  cases hcookie
  exact decode_cookieText _ (expiresAt_lt hexpiry) now

/-- A cookie that is accepted and not forged is the cookie of a session. -/
theorem genuine_issue {cookie : List Char} {s : SessionInner V} (unforged : Unforged json hmac store issues cookie)
    (h : store.decode json hmac now cookie = some s) :
    ∃ issue ∈ issues, ∃ expiresAt, issue.cookie json hmac store = some (String.ofList cookie) ∧
      store.expiresAt issue.surroundings.now = some expiresAt := by
  obtain ⟨msg, mac, hcookie, htag⟩ := decode_some h
  obtain ⟨issue, hissue, expiresAt, hexpiry, rfl⟩ := unforged msg mac hcookie htag
  refine ⟨issue, hissue, expiresAt, ?_, hexpiry⟩
  rw [issue_cookie hexpiry, hcookie, ← Base64.encode_decode htag, String.ofList_toList, ← cookie_toList,
    String.ofList_toList]

end Issues

/-- Cookies are faithful exactly when `serde_json` reads back the data of each session that can still be asked for:
    of each whose cookie does not expire within the first second of the epoch. -/
theorem faithful_iff {V : Type} (json : SerdeJson V) (hmac : List UInt8 → List UInt8 → List UInt8)
    (store : SignedCookieStore) (issues : List (Issue V)) :
    Faithful json hmac store issues ↔
      ∀ issue ∈ issues, ∀ expiresAt, store.expiresAt issue.surroundings.now = some expiresAt → 0 < expiresAt →
        issue.ReadsBack json := by
  constructor
  · intro h issue hissue expiresAt hexpiry hpos
    have hzero : (⟨0, by decide⟩ : Duration).asSecs < expiresAt := hpos
    have halive := h.alive issue hissue _ expiresAt ⟨0, by decide⟩ (issue_cookie hexpiry) hexpiry hzero
    rw [decode_issue (issue_cookie hexpiry) hexpiry, if_neg (Nat.not_le.mpr hzero)] at halive
    obtain ⟨data, hread, hdata⟩ := Option.map_eq_some_iff.mp halive
    rw [Issue.ReadsBack, hread]
    exact congrArg some (congrArg SessionInner.data hdata)
  · intro h
    have alive : ∀ issue ∈ issues, ∀ cookie expiresAt (now : Duration), issue.cookie json hmac store = some cookie →
        store.expiresAt issue.surroundings.now = some expiresAt → now.asSecs < expiresAt →
        store.decode json hmac now cookie.toList = some (issue.restored json) := by
      intro issue hissue cookie expiresAt now hcookie hexpiry hlt
      have hread := h issue hissue expiresAt hexpiry (Nat.zero_lt_of_lt hlt)
      rw [Issue.ReadsBack] at hread
      rw [decode_issue hcookie hexpiry, if_neg (Nat.not_le.mpr hlt), hread]
      rfl
    have expired : ∀ issue ∈ issues, ∀ cookie expiresAt (now : Duration), issue.cookie json hmac store = some cookie →
        store.expiresAt issue.surroundings.now = some expiresAt → expiresAt ≤ now.asSecs →
        store.decode json hmac now cookie.toList = none := by
      intro issue _ cookie expiresAt now hcookie hexpiry hle
      rw [decode_issue hcookie hexpiry, if_pos hle]
    refine ⟨alive, expired, fun cookie now s unforged hdecode => ?_⟩
    obtain ⟨issue, hissue, expiresAt, hcookie, hexpiry⟩ := genuine_issue unforged hdecode
    rcases Nat.lt_or_ge now.asSecs expiresAt with hlt | hle
    · have halive := alive issue hissue _ expiresAt now hcookie hexpiry hlt
      rw [String.toList_ofList, hdecode] at halive
      exact ⟨issue, hissue, expiresAt, hcookie, hexpiry, hlt, Option.some.inj halive⟩
    · have hexpired := expired issue hissue _ expiresAt now hcookie hexpiry hle
      rw [String.toList_ofList, hdecode] at hexpired
      cases hexpired

/-! ### Deep values -/

/-- The text of a JSON value without floating-point numbers. -/
def printed (value : Json Empty) : List Char := value.write nofun

/-- `serde_json` reads less than 128 levels of arrays and objects. -/
def parsed (text : List Char) : Option (Json Empty) := Json.read (fun _ => none) 128 text

/-- The data of an object. -/
def objectData : Json Empty → Option (Data (Json Empty))
  | .object entries => some (entries.map fun entry => (⟨entry.1, entry.2⟩ : Sigma fun _ => Json Empty)).toFinmap
  | _ => none

/-- `serde_json` on values without floating-point numbers. -/
def integerJson : SerdeJson (Json Empty) where
  string := .string
  toText entries := String.ofList (printed (.object entries))
  fromSlice bytes := (Text.ofBytes? bytes).bind fun text => (parsed text.toList).bind objectData

theorem fromSlice_toText (entries : List (List Char × Json Empty)) :
    integerJson.fromSlice (Text.bytes (integerJson.toText entries)) = (parsed (printed (.object entries))).bind objectData := by
  simp only [integerJson, Text.ofBytes?_bytes, Option.bind_some, String.toList_ofList]

/-- Arrays inside of an array. -/
def nestedArrays : Nat → Json Empty
  | 0 => .array []
  | n + 1 => .array [nestedArrays n]

/-- A value of 127 arrays, one inside of the other, in a session. -/
def treeEntries : List (List Char × Json Empty) :=
  [(sessionKey, .string (generateSessionKey (List.replicate 16 0))), ("tree".toList, nestedArrays 126)]

/-- A new session in which the value is set. -/
def treeIssue : Issue (Json Empty) where
  surroundings := ⟨⟨0, by decide⟩, List.replicate 16 0, fun _ => treeEntries⟩
  session := (SessionInner.newEmpty integerJson (List.replicate 16 0)).set "tree".toList (some (nestedArrays 126))

def twoWeeks : SignedCookieStore := ⟨Text.bytes "secret", "djangors_sessionid".toList, ⟨14 * 24 * 3600 * 10 ^ 9, by decide⟩, false⟩

theorem tree_unread : parsed (printed (.object treeEntries)) = none := by
  have hnone : (parsed (printed (.object treeEntries))).isNone = true := by decide +kernel
  exact Option.isNone_iff_eq_none.mp hnone

/-- The encoder makes a cookie of a deep value that the decoder refuses. -/
theorem tree_lost : ¬Faithful integerJson Sha256.hmac twoWeeks [treeIssue] := by
  intro h
  have hexpiry : twoWeeks.expiresAt treeIssue.surroundings.now = some (14 * 24 * 3600) := by decide
  have halive := h.alive treeIssue (List.mem_singleton_self _) _ _ ⟨0, by decide⟩ (issue_cookie hexpiry) hexpiry (by decide)
  have htext : treeIssue.text integerJson = integerJson.toText treeEntries := rfl
  rw [decode_issue (issue_cookie hexpiry) hexpiry, if_neg (by decide), htext, fromSlice_toText, tree_unread] at halive
  cases halive

end Djangors.Sessions
