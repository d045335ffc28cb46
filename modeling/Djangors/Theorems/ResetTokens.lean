import Djangors.Auth.PasswordReset
import Djangors.Lib.Sha256

/-! # Password-reset tokens and password changes

A token signs the first 30 bytes of the password hash. The text of a hash starts with its algorithm,
version and parameters, which are 30 bytes, so the token does not depend on the password. -/

namespace Djangors.Auth

/-! ### What a token holds -/

theorem decodeText_encodeBytes (text : String) :
    decodeText (encodeBytes (Text.bytes text)).toList = some text := by
  rw [decodeText, encodeBytes, String.toList_ofList, Base64.decode_encode, Option.bind_some, Text.ofBytes?_bytes]

/-- A token is split into its three parts. -/
theorem splitOn_token (a b c : List UInt8) :
    (encodeBytes a ++ "." ++ encodeBytes b ++ "." ++ encodeBytes c).toList.splitOn '.' =
      [(encodeBytes a).toList, (encodeBytes b).toList, (encodeBytes c).toList] := by
  have htoken : (encodeBytes a ++ "." ++ encodeBytes b ++ "." ++ encodeBytes c).toList =
      ['.'].intercalate [(encodeBytes a).toList, (encodeBytes b).toList, (encodeBytes c).toList] := by
    simp [List.intercalate]
  rw [htoken]
  refine List.splitOn_intercalate '.' (fun part hpart => ?_) (by simp)
  have hdot (bytes : List UInt8) : '.' ∉ (encodeBytes bytes).toList := by
    rw [encodeBytes, String.toList_ofList]
    exact Base64.dot_notMem_encode bytes
  simp only [List.mem_cons, List.not_mem_nil, or_false] at hpart
  rcases hpart with rfl | rfl | rfl <;> exact hdot _

/-- The 30 bytes of a hash that a token signs. -/
theorem passwordHashPrefix_phc (salt digest : String) : passwordHashPrefix (phc salt digest) = some phcParameters := by
  have hsize : 30 ≤ (phc salt digest).utf8ByteSize := by
    simp only [phc, String.utf8ByteSize_append]
    have hparameters : phcParameters.utf8ByteSize = 30 := by decide
    omega
  have htext : (phc salt digest).toList = phcParameters.toList ++ ("$" ++ salt ++ "$" ++ digest).toList := by
    simp [phc]
  have hsum : (phcParameters.toList.map Char.utf8Size).sum = 30 := by decide
  have hcut := Text.cut_append phcParameters.toList ("$" ++ salt ++ "$" ++ digest).toList
  rw [hsum] at hcut
  rw [passwordHashPrefix, Nat.min_eq_left hsize, htext, hcut, Option.map_some, String.ofList_toList]

section Token
variable {U : Type} [AuthUser U] {hmac : List UInt8 → List UInt8 → List UInt8} {user : U} {secret : List UInt8}
  {ttl issued : Duration} {token : String}

theorem generate_some (h : generatePasswordResetToken hmac user secret ttl issued = some token) :
    ∃ expiry hashPrefix, issued.add ttl = some expiry ∧ passwordHashPrefix (AuthUser.passwordHash user) = some hashPrefix ∧
      token = encodeBytes (Text.bytes (toString (AuthUser.id user).toInt)) ++ "." ++
        encodeBytes (Text.bytes (toString expiry.asSecs)) ++ "." ++
        encodeBytes (hmac secret (Text.bytes (tokenMessage user expiry.asSecs hashPrefix))) := by
  obtain ⟨expiry, hexpiry, h⟩ := Option.bind_eq_some_iff.mp h
  obtain ⟨hashPrefix, hprefix, h⟩ := Option.bind_eq_some_iff.mp h
  cases h
  exact ⟨expiry, hashPrefix, hexpiry, hprefix, rfl⟩

/-- What `verify_password_reset_token` reads in a token. -/
theorem verify_token (user' : U) (expiry : Duration) (mac : List UInt8) (now : Duration) :
    verifyPasswordResetToken hmac user'
      (encodeBytes (Text.bytes (toString (AuthUser.id user).toInt)) ++ "." ++
        encodeBytes (Text.bytes (toString expiry.asSecs)) ++ "." ++ encodeBytes mac) secret now =
    if (AuthUser.id user).toInt ≠ (AuthUser.id user').toInt ∨ expiry.asSecs ≤ now.asSecs then some false
    else (passwordHashPrefix (AuthUser.passwordHash user')).map fun hashPrefix =>
      mac == hmac secret (Text.bytes (tokenMessage user' expiry.asSecs hashPrefix)) := by
  have hid : Text.parseSigned (2 ^ 63) (toString (AuthUser.id user).toInt).toList = some (AuthUser.id user).toInt :=
    Text.parseSigned_toString (AuthUser.id user).le_toInt (AuthUser.id user).toInt_lt
  have hexpiry : Text.parseUnsigned (2 ^ 64) (toString expiry.asSecs).toList = some expiry.asSecs :=
    Text.parseUnsigned_toString expiry.asSecs_lt
  have hmac' : Base64.decode (encodeBytes mac).toList = some mac := by
    rw [encodeBytes, String.toList_ofList, Base64.decode_encode]
  rw [verifyPasswordResetToken, splitOn_token]
  simp only [decodeText_encodeBytes, Option.bind_some, hid, hexpiry, hmac']
  by_cases hsame : (AuthUser.id user).toInt = (AuthUser.id user').toInt
  · by_cases hlate : expiry.asSecs ≤ now.asSecs
    · simp [hlate]
    · rw [if_neg (not_not.mpr hsame), if_neg hlate, if_neg (not_or.mpr ⟨not_not.mpr hsame, hlate⟩)]
      cases passwordHashPrefix (AuthUser.passwordHash user') <;> rfl
  · simp [hsame]

/-- A token is worth nothing once its expiry has come. -/
theorem verify_expired (h : generatePasswordResetToken hmac user secret ttl issued = some token)
    {expiry now : Duration} (hexpiry : issued.add ttl = some expiry) (hlate : expiry.asSecs ≤ now.asSecs) (user' : U) :
    verifyPasswordResetToken hmac user' token secret now = some false := by
  obtain ⟨expiry', hashPrefix, hexpiry', _, rfl⟩ := generate_some h
  cases hexpiry.symm.trans hexpiry'
  rw [verify_token, if_pos (.inr hlate)]

/-- Until then it holds for every password of the user. -/
theorem verify_alive {salt digest salt' digest' : String} (hhash : AuthUser.passwordHash user = phc salt digest)
    (h : generatePasswordResetToken hmac user secret ttl issued = some token) {expiry now : Duration}
    (hexpiry : issued.add ttl = some expiry) (halive : now.asSecs < expiry.asSecs) {user' : U}
    (hid : AuthUser.id user' = AuthUser.id user) (hhash' : AuthUser.passwordHash user' = phc salt' digest') :
    verifyPasswordResetToken hmac user' token secret now = some true := by
  obtain ⟨expiry', hashPrefix, hexpiry', hprefix, rfl⟩ := generate_some h
  cases hexpiry.symm.trans hexpiry'
  rw [hhash, passwordHashPrefix_phc, Option.some.injEq] at hprefix
  subst hprefix
  rw [verify_token, if_neg, hhash', passwordHashPrefix_phc]
  · simp [tokenMessage, hid]
  · simpa [hid] using halive

/-- A user with a hash of the hasher gets a token unless the expiry overflows. -/
theorem generate_phc {salt digest : String} (hhash : AuthUser.passwordHash user = phc salt digest) {expiry : Duration}
    (hexpiry : issued.add ttl = some expiry) :
    ∃ token, generatePasswordResetToken hmac user secret ttl issued = some token := by
  simp [generatePasswordResetToken, hexpiry, hhash, passwordHashPrefix_phc]

end Token

/-! ### Tokens and passwords -/

section Passwords
variable {U : Type} [AuthUser U] (hmac : List UInt8 → List UInt8 → List UInt8) (user : U) (secret : List UInt8)
  (ttl issued : Duration)

/-- A token of the user is rejected from the moment that the user has another hash. -/
def RejectedAfterChange : Prop :=
  ∀ token, generatePasswordResetToken hmac user secret ttl issued = some token →
    ∀ salt digest, phc salt digest ≠ AuthUser.passwordHash user → ∀ now : Duration, issued.nanos ≤ now.nanos →
      verifyPasswordResetToken hmac (AuthUser.setPasswordHash user (phc salt digest)) token secret now = some false

/-- In every run a token of the user changes a password at most once. -/
def UsedAtMostOnce : Prop :=
  ∀ token, generatePasswordResetToken hmac user secret ttl issued = some token →
    ∀ (users : List U) (events : List Event), Since issued events → NoHashReturns (AuthUser.passwordHash user) events →
      uses hmac secret token users events ≤ 1

/-- The token has expired when it is issued, or its expiry overflows and there is no token. -/
def DeadOnArrival : Prop := ∀ expiry, issued.add ttl = some expiry → expiry.asSecs ≤ issued.asSecs

variable {hmac user secret ttl issued}

theorem Duration.asSecs_le {s t : Duration} (h : s.nanos ≤ t.nanos) : s.asSecs ≤ t.asSecs := Nat.div_le_div_right h

theorem deadOnArrival_rejected (dead : DeadOnArrival ttl issued) {token : String}
    (h : generatePasswordResetToken hmac user secret ttl issued = some token) (user' : U) {now : Duration}
    (later : issued.nanos ≤ now.nanos) : verifyPasswordResetToken hmac user' token secret now = some false := by
  obtain ⟨expiry, _, hexpiry, _⟩ := generate_some h
  exact verify_expired h hexpiry (Nat.le_trans (dead expiry hexpiry) (Duration.asSecs_le later)) user'

/-- What a reset that succeeds has found, and the table it leaves. -/
theorem confirm_ok {surroundings : Surroundings} {users after : List U} {userId : Int64} {token newPassword : String}
    (h : confirmPasswordReset hmac surroundings users userId token newPassword secret = some (.ok after)) :
    ∃ user' hashed, users.filter (AuthUser.id · = userId) = [user'] ∧
      verifyPasswordResetToken hmac user' token secret surroundings.now = some true ∧
      hashPassword surroundings.hasher newPassword = .ok hashed ∧
      after = users.map fun u => if AuthUser.id u = AuthUser.id (AuthUser.setPasswordHash user' hashed)
        then AuthUser.setPasswordHash user' hashed else u := by
  unfold confirmPasswordReset at h
  split at h
  · cases h
  · split at h
    · rename_i user' hfound
      obtain ⟨valid, hvalid, h⟩ := Option.bind_eq_some_iff.mp h
      cases valid with
      | false => cases h
      | true =>
        simp only [if_true] at h
        split at h
        · cases h
        · rename_i hashed hhashed
          split at h
          · cases h
          · cases h
            exact ⟨user', hashed, hfound, hvalid, hhashed, rfl⟩
    · cases h

/-- A use of a token is a reset that finds the token valid. -/
theorem uses_verified {token : String} {users : List U} {event : Event} (h : event.uses hmac secret token users = true) :
    ∃ surroundings userId newPassword user', event = .reset surroundings userId token newPassword ∧
      verifyPasswordResetToken hmac (user' : U) token secret surroundings.now = some true := by
  cases event with
  | setPassword userId hash => cases h
  | reset surroundings userId presented newPassword =>
    simp only [Event.uses, Bool.and_eq_true, beq_iff_eq] at h
    obtain ⟨rfl, h⟩ := h
    split at h
    · rename_i hconfirm
      obtain ⟨user', _, _, hvalid, _⟩ := confirm_ok hconfirm
      exact ⟨surroundings, userId, newPassword, user', rfl, hvalid⟩
    · cases h

theorem uses_eq_zero (dead : DeadOnArrival ttl issued) {token : String}
    (h : generatePasswordResetToken hmac user secret ttl issued = some token) {users : List U} {events : List Event}
    (since : Since issued events) : uses hmac secret token users events = 0 := by
  induction events generalizing users with
  | nil => rfl
  | cons event events ih =>
    have hlater : Since issued events := fun surroundings userId presented newPassword hmem =>
      since surroundings userId presented newPassword (List.mem_cons_of_mem _ hmem)
    rw [uses, ih hlater]
    cases hused : event.uses hmac secret token users with
    | false => rfl
    | true =>
      obtain ⟨surroundings, userId, newPassword, user', rfl, hvalid⟩ := uses_verified hused
      have later := since surroundings userId token newPassword (List.mem_cons_self ..)
      rw [deadOnArrival_rejected dead h user' later] at hvalid
      cases hvalid

/-- A reset with a token that the user's row fits stores the new hash. -/
theorem confirm_verified {user' : U} {token newPassword hashed : String} {now : Duration}
    {hasher : String → Except String (String × String)}
    (hvalid : verifyPasswordResetToken hmac user' token secret now = some true)
    (hhashed : hashPassword hasher newPassword = .ok hashed) :
    confirmPasswordReset hmac { now, hasher } [user'] (AuthUser.id user') token newPassword secret =
      some (.ok [AuthUser.setPasswordHash user' hashed]) := by
  simp [confirmPasswordReset, hvalid, hhashed]

theorem phc_ne {salt digest more : String} (h : more ≠ "") : phc salt (digest ++ more) ≠ phc salt digest := by
  intro heq
  have hlength := congrArg String.length heq
  simp only [phc, String.length_append] at hlength
  refine h (String.length_eq_zero_iff.mp ?_)
  omega

/-- An attempt at the moment of issue, for which the hasher returns this salt and digest. -/
def attempt (user : U) (token : String) (issued : Duration) (salt digest : String) : Event :=
  .reset { now := issued, hasher := fun _ => .ok (salt, digest) } (AuthUser.id user) token ""

/-- An attempt with a valid token counts, and stores the hash that the hasher returns. -/
theorem attempt_uses {user' : U} {token salt digest : String} (hid : AuthUser.id user' = AuthUser.id user)
    (hvalid : verifyPasswordResetToken hmac user' token secret issued = some true) :
    (attempt user token issued salt digest).uses hmac secret token [user'] = true ∧
      (attempt user token issued salt digest).after hmac secret [user'] =
        [AuthUser.setPasswordHash user' (phc salt digest)] := by
  have hhashed : hashPassword (fun _ => .ok (salt, digest)) "" = .ok (phc salt digest) := rfl
  have hconfirm := confirm_verified hvalid hhashed
  rw [hid] at hconfirm
  exact ⟨by simp [attempt, Event.uses, hconfirm], by simp [attempt, Event.after, hconfirm]⟩

/-- A token that is alive when it is issued can be used twice. -/
theorem uses_twice {salt digest : String} (hhash : AuthUser.passwordHash user = phc salt digest) {token : String}
    (h : generatePasswordResetToken hmac user secret ttl issued = some token) {expiry : Duration}
    (hexpiry : issued.add ttl = some expiry) (halive : issued.asSecs < expiry.asSecs) :
    uses hmac secret token [user] [attempt user token issued salt (digest ++ "a"),
      attempt user token issued salt (digest ++ "a" ++ "b")] = 2 := by
  have hfirst := verify_alive hhash h hexpiry halive rfl hhash
  have hsecond := verify_alive hhash h hexpiry halive
    (AuthUser.id_setPasswordHash user (phc salt (digest ++ "a"))) (AuthUser.passwordHash_setPasswordHash ..)
  rw [uses, (attempt_uses rfl hfirst).1, (attempt_uses rfl hfirst).2, uses,
    (attempt_uses (AuthUser.id_setPasswordHash ..) hsecond).1, uses]
  rfl

/-- The two attempts store hashes that were not there before. -/
theorem attempts_fresh (user : U) (token salt digest : String) :
    NoHashReturns (phc salt digest) [attempt user token issued salt (digest ++ "a"),
      attempt user token issued salt (digest ++ "a" ++ "b")] := by
  have hfirst : phc salt (digest ++ "a") ≠ phc salt digest := phc_ne (by decide)
  have hsecond : phc salt (digest ++ "a" ++ "b") ≠ phc salt (digest ++ "a") := phc_ne (by decide)
  have hthird : phc salt (digest ++ "a" ++ "b") ≠ phc salt digest := by
    rw [String.append_assoc]
    exact phc_ne (by decide)
  have hhashes : [attempt user token issued salt (digest ++ "a"), attempt user token issued salt (digest ++ "a" ++ "b")].filterMap
      (·.newHash?) = [phc salt (digest ++ "a"), phc salt (digest ++ "a" ++ "b")] := rfl
  rw [NoHashReturns, hhashes]
  simp [hfirst.symm, hsecond.symm, hthird.symm]

/-- A token that is alive when it is issued is not rejected after the next change. -/
theorem not_rejectedAfterChange {salt digest : String} (hhash : AuthUser.passwordHash user = phc salt digest)
    {expiry : Duration} (hexpiry : issued.add ttl = some expiry) (halive : issued.asSecs < expiry.asSecs) :
    ¬ RejectedAfterChange hmac user secret ttl issued := by
  intro rejected
  obtain ⟨token, h⟩ : ∃ token, generatePasswordResetToken hmac user secret ttl issued = some token :=
    generate_phc hhash hexpiry
  have hother : phc salt (digest ++ "a") ≠ AuthUser.passwordHash user := hhash ▸ phc_ne (by decide)
  have hrejected := rejected token h salt (digest ++ "a") hother issued (Nat.le_refl _)
  rw [verify_alive hhash h hexpiry halive (AuthUser.id_setPasswordHash ..) (AuthUser.passwordHash_setPasswordHash ..)]
    at hrejected
  cases hrejected

theorem not_usedAtMostOnce {salt digest : String} (hhash : AuthUser.passwordHash user = phc salt digest)
    {expiry : Duration} (hexpiry : issued.add ttl = some expiry) (halive : issued.asSecs < expiry.asSecs) :
    ¬ UsedAtMostOnce hmac user secret ttl issued := by
  intro once
  obtain ⟨token, h⟩ : ∃ token, generatePasswordResetToken hmac user secret ttl issued = some token :=
    generate_phc hhash hexpiry
  have htwice := uses_twice hhash h hexpiry halive
  have honce := once token h [user] [attempt user token issued salt (digest ++ "a"),
    attempt user token issued salt (digest ++ "a" ++ "b")]
    (fun surroundings _ _ _ hmem => ?_) (hhash ▸ attempts_fresh user token salt digest)
  · rw [htwice] at honce
    omega
  · simp only [attempt, List.mem_cons, Event.reset.injEq, List.not_mem_nil, or_false] at hmem
    rcases hmem with ⟨rfl, _⟩ | ⟨rfl, _⟩ <;> exact Nat.le_refl _

end Passwords

/-- A token dies with the password exactly when it is dead on arrival: whatever the password becomes, the
    token is as good as before, and it can be used again. -/
theorem token_dies_iff {U : Type} [AuthUser U] (hmac : List UInt8 → List UInt8 → List UInt8) (user : U)
    (salt digest : String) (secret : List UInt8) (ttl issued : Duration) :
    (RejectedAfterChange hmac (AuthUser.setPasswordHash user (phc salt digest)) secret ttl issued ↔
      DeadOnArrival ttl issued) ∧
    (UsedAtMostOnce hmac (AuthUser.setPasswordHash user (phc salt digest)) secret ttl issued ↔
      DeadOnArrival ttl issued) := by
  have hhash := AuthUser.passwordHash_setPasswordHash user (phc salt digest)
  refine ⟨⟨fun rejected expiry hexpiry => ?_, fun dead token h _ _ _ now later => deadOnArrival_rejected dead h _ later⟩,
    fun once expiry hexpiry => ?_, fun dead token h users events since _ => ?_⟩
  · by_contra hlate
    exact not_rejectedAfterChange hhash hexpiry (Nat.lt_of_not_le hlate) rejected
  · by_contra hlate
    exact not_usedAtMostOnce hhash hexpiry (Nat.lt_of_not_le hlate) once
  · rw [uses_eq_zero dead h since]
    exact Nat.zero_le 1

/-! ### A token for an hour -/

def alice : User := ⟨7, phc "c29tZXNhbHQ" "dGVzdHBhc3N3b3Jk"⟩

def hour : Duration := ⟨3600 * 10 ^ 9, by decide⟩

def issueTime : Duration := ⟨1700000000 * 10 ^ 9, by decide⟩

/-- Alice's token for an hour outlives her password. -/
theorem alice_token_survives :
    ¬ RejectedAfterChange Sha256.hmac alice (Text.bytes "secret") hour issueTime ∧
      ¬ UsedAtMostOnce Sha256.hmac alice (Text.bytes "secret") hour issueTime := by
  have hexpiry : issueTime.add hour = some ⟨1700003600 * 10 ^ 9, by decide⟩ := by decide
  exact ⟨not_rejectedAfterChange rfl hexpiry (by decide), not_usedAtMostOnce rfl hexpiry (by decide)⟩

end Djangors.Auth
