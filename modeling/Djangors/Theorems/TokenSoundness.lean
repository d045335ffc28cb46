import Djangors.Lib.TextCode
import Djangors.Lib.Utf8
import Djangors.Theorems.ResetTokens

/-! # Who a password-reset token lets in

A token names its user and its expiry, and carries a MAC of both and of the start of the password hash. The
texts of the two numbers hold no dots, so the message that is signed determines them. The start of the hash is
cut out by bytes, which panics inside a character. -/

namespace Djangors.Auth

/-! ### What a token tells -/

/-- The expiry in the second part of a token. -/
def tokenExpiry (token : String) : Option Nat :=
  match token.toList.splitOn '.' with
  | [_, b64Expiry, _] => (decodeText b64Expiry).bind fun text => Text.parseUnsigned (2 ^ 64) text.toList
  | _ => none

/-- The MAC in the third part of a token. -/
def tokenMac (token : String) : Option (List UInt8) :=
  match token.toList.splitOn '.' with
  | [_, _, b64Mac] => Base64.decode b64Mac
  | _ => none

/-- The byte after the part of a hash that tokens sign starts a character, or is the end of the hash. -/
def EndsOnBoundary (hash : String) : Prop :=
  ∃ start rest : String, hash = start ++ rest ∧ start.utf8ByteSize = min 30 hash.utf8ByteSize

theorem utf8ByteSize_eq_size (text : String) : text.utf8ByteSize = Text.size text.toList := by
  obtain ⟨l, rfl⟩ := text.exists_eq_ofList
  induction l with
  | nil => rfl
  | cons c l ih =>
    rw [← List.singleton_append, String.ofList_append, String.utf8ByteSize_append, ih, String.toList_append,
      Text.size_append, ← String.singleton_eq_ofList, String.utf8ByteSize_singleton]
    simp [Text.size]

theorem passwordHashPrefix_isSome_iff (hash : String) :
    (∃ hashPrefix, passwordHashPrefix hash = some hashPrefix) ↔ EndsOnBoundary hash := by
  constructor
  · rintro ⟨hashPrefix, h⟩
    obtain ⟨start, hcut, rfl⟩ := Option.map_eq_some_iff.mp h
    obtain ⟨rest, hrest, hsize⟩ := Text.cut_eq_some hcut
    refine ⟨String.ofList start, String.ofList rest, ?_, ?_⟩
    · rw [← String.ofList_append, ← hrest, String.ofList_toList]
    · rw [utf8ByteSize_eq_size, String.toList_ofList, hsize]
  · rintro ⟨start, rest, hhash, hsize⟩
    refine ⟨start, ?_⟩
    have hcut := Text.cut_append start.toList rest.toList
    rw [← Text.size, ← utf8ByteSize_eq_size, hsize, ← String.toList_append, ← hhash] at hcut
    rw [passwordHashPrefix, hcut, Option.map_some, String.ofList_toList]

section Messages
variable {U : Type} [AuthUser U]

theorem dot_notMem_int (i : Int) : '.' ∉ (toString i).toList :=
  TextCode.notMem_toString_int (by simp) (by decide) i

theorem dot_notMem_nat (n : Nat) : '.' ∉ (toString n).toList := fun hdot =>
  absurd ((Text.digits_of_toString n).2 '.' hdot) (by decide)

/-- A message determines the user and the expiry. -/
theorem tokenMessage_inj {user user' : U} {expiry expiry' : Nat} {hashPrefix hashPrefix' : String}
    (h : tokenMessage user expiry hashPrefix = tokenMessage user' expiry' hashPrefix') :
    AuthUser.id user = AuthUser.id user' ∧ expiry = expiry' := by
  have htext := congrArg String.toList h
  simp only [tokenMessage, String.toList_append, List.append_assoc] at htext
  obtain ⟨hid, hrest⟩ := TextCode.append_cons_inj (dot_notMem_int _) (dot_notMem_int _) htext
  obtain ⟨hexpiry, _⟩ := TextCode.append_cons_inj (dot_notMem_nat _) (dot_notMem_nat _) hrest
  have hdigits := congrArg Text.digits? hexpiry
  rw [Text.digits?_toString, Text.digits?_toString] at hdigits
  exact ⟨Int64.toInt_inj.mp (TextCode.toString_int_injective hid), Option.some.inj hdigits⟩

end Messages

/-! ### Generations -/

/-- A call of `generate_password_reset_token` under the secret. -/
structure Generation (U : Type) where
  user : U
  ttl : Duration
  issued : Duration

section Generations
variable {U : Type} [AuthUser U]

/-- The expiry that a generation puts into its token. -/
def Generation.expiry (g : Generation U) : Option Nat := (g.issued.add g.ttl).map Duration.asSecs

/-- The message that a generation signs. -/
def Generation.message (g : Generation U) : Option String := do
  tokenMessage g.user (← g.expiry) (← passwordHashPrefix (AuthUser.passwordHash g.user))

variable (hmac : List UInt8 → List UInt8 → List UInt8) (secret : List UInt8)

/-- The MAC that a token carries is not forged: if it is the MAC of a message, one of the generations has
    signed that message. -/
def Unforged (generations : List (Generation U)) (token : String) : Prop :=
  ∀ mac msg, tokenMac token = some mac → mac = hmac secret (Text.bytes msg) → ∃ g ∈ generations, g.message = some msg

/-- What a user may rely on for the token that one call generates, and for every token that is presented. -/
structure TokensSound (user : U) (ttl issued : Duration) : Prop where
  generates : ∃ token, generatePasswordResetToken hmac user secret ttl issued = some token
  answers : ∀ token now, ∃ accepted, verifyPasswordResetToken hmac user token secret now = some accepted
  complete : ∀ token expiry, generatePasswordResetToken hmac user secret ttl issued = some token →
    tokenExpiry token = some expiry → ∀ user' : U, AuthUser.id user' = AuthUser.id user →
      AuthUser.passwordHash user' = AuthUser.passwordHash user → ∀ now : Duration, now.nanos < expiry * 10 ^ 9 →
        verifyPasswordResetToken hmac user' token secret now = some true
  sound : ∀ (generations : List (Generation U)) token now, Unforged hmac secret generations token →
    verifyPasswordResetToken hmac user token secret now = some true →
      ∃ g ∈ generations, ∃ expiry, AuthUser.id g.user = AuthUser.id user ∧ g.expiry = some expiry ∧
        tokenExpiry token = some expiry ∧ now.nanos < expiry * 10 ^ 9
  separate : ∀ token, generatePasswordResetToken hmac user secret ttl issued = some token →
    ∀ user' : U, AuthUser.id user' ≠ AuthUser.id user → ∀ now,
      verifyPasswordResetToken hmac user' token secret now = some false

end Generations

section Verification
variable {U : Type} [AuthUser U] {hmac : List UInt8 → List UInt8 → List UInt8} {user : U} {secret : List UInt8}
  {ttl issued now : Duration} {token : String}

theorem Duration.asSecs_lt_iff {expiry : Nat} : now.asSecs < expiry ↔ now.nanos < expiry * 10 ^ 9 :=
  Nat.div_lt_iff_lt_mul (by simp)

/-- What a token has to say for `verify_password_reset_token` to accept it. -/
theorem verify_accepts (h : verifyPasswordResetToken hmac user token secret now = some true) :
    ∃ expiry hashPrefix mac, tokenExpiry token = some expiry ∧ tokenMac token = some mac ∧ now.asSecs < expiry ∧
      passwordHashPrefix (AuthUser.passwordHash user) = some hashPrefix ∧
      mac = hmac secret (Text.bytes (tokenMessage user expiry hashPrefix)) := by
  unfold verifyPasswordResetToken at h
  split at h
  · rename_i b64UserId b64Expiry b64Mac hparts
    split at h
    · cases h
    · split at h
      · cases h
      · split at h
        · cases h
        · rename_i expiry hexpiry
          split at h
          · cases h
          · rename_i halive
            obtain ⟨hashPrefix, hpre, h⟩ := Option.bind_eq_some_iff.mp h
            simp only at h
            split at h
            · cases h
            · rename_i mac hmac'
              refine ⟨expiry, hashPrefix, mac, ?_, ?_, Nat.lt_of_not_le halive, hpre, ?_⟩
              · rw [tokenExpiry, hparts]
                exact hexpiry
              · rw [tokenMac, hparts]
                exact hmac'
              · simpa using h
  · cases h

/-- Verification panics nowhere but in the hash. -/
theorem verify_answers (h : passwordHashPrefix (AuthUser.passwordHash user) ≠ none) (token : String) (now : Duration) :
    ∃ accepted, verifyPasswordResetToken hmac user token secret now = some accepted := by
  obtain ⟨hashPrefix, hpre⟩ := Option.ne_none_iff_exists'.mp h
  unfold verifyPasswordResetToken
  rw [hpre]
  split
  · split
    · exact ⟨_, rfl⟩
    · split
      · exact ⟨_, rfl⟩
      · split
        · exact ⟨_, rfl⟩
        · split
          · exact ⟨_, rfl⟩
          · simp only [Option.bind_eq_bind, Option.bind_some]
            split <;> exact ⟨_, rfl⟩
  · exact ⟨_, rfl⟩

theorem tokenExpiry_generated (h : generatePasswordResetToken hmac user secret ttl issued = some token) {expiry : Duration}
    (hexpiry : issued.add ttl = some expiry) : tokenExpiry token = some expiry.asSecs := by
  obtain ⟨expiry', hashPrefix, hexpiry', _, rfl⟩ := generate_some h
  cases hexpiry.symm.trans hexpiry'
  rw [tokenExpiry, splitOn_token]
  simp only [decodeText_encodeBytes, Option.bind_some]
  exact Text.parseUnsigned_toString expiry.asSecs_lt

/-- A token that is alive is accepted for its user. -/
theorem verify_generated (h : generatePasswordResetToken hmac user secret ttl issued = some token) {expiry : Nat}
    (hexpiry : tokenExpiry token = some expiry) {user' : U} (hid : AuthUser.id user' = AuthUser.id user)
    (hhash : AuthUser.passwordHash user' = AuthUser.passwordHash user) (halive : now.nanos < expiry * 10 ^ 9) :
    verifyPasswordResetToken hmac user' token secret now = some true := by
  obtain ⟨sum, hashPrefix, hsum, hpre, htoken⟩ := generate_some h
  rw [tokenExpiry_generated h hsum, Option.some.injEq] at hexpiry
  subst hexpiry
  have hearly := Duration.asSecs_lt_iff.mpr halive
  rw [htoken, verify_token, if_neg (by simp [hid, hearly]), hhash, hpre]
  simp [tokenMessage, hid]

/-- It is rejected for every other user, before their hash is read. -/
theorem verify_other (h : generatePasswordResetToken hmac user secret ttl issued = some token) {user' : U}
    (hid : AuthUser.id user' ≠ AuthUser.id user) :
    verifyPasswordResetToken hmac user' token secret now = some false := by
  obtain ⟨sum, hashPrefix, _, _, rfl⟩ := generate_some h
  have hother : (AuthUser.id user).toInt ≠ (AuthUser.id user').toInt := fun heq => hid (Int64.toInt_inj.mp heq.symm)
  rw [verify_token, if_pos (.inl hother)]

/-- A token that is accepted was signed for the user and the expiry that it names. -/
theorem verify_signed {generations : List (Generation U)} (unforged : Unforged hmac secret generations token)
    (h : verifyPasswordResetToken hmac user token secret now = some true) :
    ∃ g ∈ generations, ∃ expiry, AuthUser.id g.user = AuthUser.id user ∧ g.expiry = some expiry ∧
      tokenExpiry token = some expiry ∧ now.nanos < expiry * 10 ^ 9 := by
  obtain ⟨expiry, hashPrefix, mac, hexpiry, hmac', halive, _, hsigned⟩ := verify_accepts h
  obtain ⟨g, hg, hmessage⟩ := unforged mac _ hmac' hsigned
  obtain ⟨expiry', hexpiry', hmessage⟩ := Option.bind_eq_some_iff.mp hmessage
  obtain ⟨hashPrefix', _, hmessage⟩ := Option.bind_eq_some_iff.mp hmessage
  obtain ⟨hid, rfl⟩ := tokenMessage_inj (Option.some.inj hmessage)
  exact ⟨g, hg, expiry', hid, hexpiry', hexpiry, Duration.asSecs_lt_iff.mp halive⟩

theorem generates_iff : (∃ token, generatePasswordResetToken hmac user secret ttl issued = some token) ↔
    EndsOnBoundary (AuthUser.passwordHash user) ∧ issued.add ttl ≠ none := by
  rw [← passwordHashPrefix_isSome_iff, Option.ne_none_iff_exists']
  constructor
  · rintro ⟨token, h⟩
    obtain ⟨expiry, hashPrefix, hexpiry, hpre, _⟩ := generate_some h
    exact ⟨⟨hashPrefix, hpre⟩, expiry, hexpiry⟩
  · rintro ⟨⟨hashPrefix, hpre⟩, expiry, hexpiry⟩
    simp [generatePasswordResetToken, hexpiry, hpre]

end Verification

/-- Tokens let in their user until they expire, and nobody else, exactly when the hash can be cut after 30
    bytes and the expiry does not overflow. -/
theorem tokens_sound_iff {U : Type} [AuthUser U] (hmac : List UInt8 → List UInt8 → List UInt8) (user : U)
    (secret : List UInt8) (ttl issued : Duration) :
    TokensSound hmac secret user ttl issued ↔
      EndsOnBoundary (AuthUser.passwordHash user) ∧ issued.add ttl ≠ none := by
  refine ⟨fun sound => generates_iff.mp sound.generates, fun h => ?_⟩
  have hpre : passwordHashPrefix (AuthUser.passwordHash user) ≠ none :=
    Option.ne_none_iff_exists'.mpr ((passwordHashPrefix_isSome_iff _).mpr h.1)
  exact {
    generates := generates_iff.mpr h
    answers := fun token now => verify_answers hpre token now
    complete := fun token expiry hgenerate hexpiry user' hid hhash now halive =>
      verify_generated hgenerate hexpiry hid hhash halive
    sound := fun generations token now unforged haccepted => verify_signed unforged haccepted
    separate := fun token hgenerate user' hid now => verify_other hgenerate hid }

/-! ### A hash with an umlaut -/

/-- A user whose hash has its 30th byte inside a character. -/
def imported : User := ⟨8, "$legacy$abcdefghijklmnopqrstu\u00fc$0123456789"⟩

theorem imported_panics : ¬ TokensSound Sha256.hmac (Text.bytes "secret") imported hour issueTime := by
  intro sound
  obtain ⟨token, h⟩ := sound.generates
  obtain ⟨_, hashPrefix, _, hpre, _⟩ := generate_some h
  have hnone : passwordHashPrefix (AuthUser.passwordHash imported) = none := by decide +kernel
  cases hnone.symm.trans hpre

end Djangors.Auth
