import Djangors.Auth.Superuser
import Djangors.Migrations.Plan
import Djangors.Theorems.Assignments
import Djangors.Theorems.Projections

/-! # Names of users

`create_superuser_impl` looks for the name and then inserts the user, and the schema has no constraint on the name. The
names stay unique, and each user can log in, when no user of the same name is inserted in between. -/

namespace Djangors.Orm
open Db Sql

/-! ### Saving -/

section Save
variable {ρ : Type} (G : TryGet) (T : TextTypes ρ) (M : DerivedModel) (S : Server) (db : Tables Cell) (now : DateTime)
  (object : Object ρ)

/-- The values that `save` gives for a row. -/
def savedCells : Row Cell :=
  M.saveFields.map fun member => (member.columnName, ((member.savedValue T now object).toBindAs member.nullKind).cell)

/-- `save` adds the row with its values, or changes nothing. -/
theorem save_cases : (∃ e, M.save G T S db now object = (db, .error e)) ∨
    M.save G T S db now object =
      (Function.update db M.tableName (db M.tableName ++ [S.complete db M.tableName (savedCells T M now object)]),
        M.fromRow G T (S.complete db M.tableName (savedCells T M now object))) := by
  rw [DerivedModel.save]
  split
  · exact .inl ⟨_, rfl⟩
  · have hrows : Server.insertedRows (M.saveStatement T now object).source = [savedCells T M now object] := by
      rw [DerivedModel.saveStatement, Server.insertedRows, savedCells, List.map_singleton, List.map_map, List.zip_map']
      rfl
    rw [Server.runInsert, hrows]
    cases hcommit : S.commit db M.tableName (db M.tableName ++ [S.complete db M.tableName (savedCells T M now object)]) with
    | error e =>
      refine .inl ⟨e, ?_⟩
      simp only [DerivedModel.saveStatement, Server.completeAll_singleton, hcommit]
      rfl
    | ok after =>
      refine .inr ?_
      simp only [DerivedModel.saveStatement, Server.completeAll_singleton, hcommit]
      rw [Server.commit_ok hcommit]
      rfl

end Save
end Djangors.Orm

namespace Djangors.Auth
open Db Orm Sql
open Creating

/-! ### Rows of users -/

/-- A server that compares texts as they are and stores the values of an `INSERT`, and getters that read texts and booleans
    as they are stored. -/
structure LawfulUsers (S : Server) (G : TryGet) : Prop where
  text_eq : ∀ a b, S.interp.compare .eq (.text a) (.text b) = some (a == b)
  complete_given : ∀ db t (r : Row Cell) c v, r.lookup c = some v → (S.complete db t r).lookup c = some v
  string : ∀ s, G.string (.text s) = .ok (some s)
  bool : ∀ b, G.bool (.bool b) = .ok (some b)

section Users
variable {ρ : Type} {S : Server} {G : TryGet} {T : TextTypes ρ} {db : Tables Cell} {username : String} {user : Object ρ}
  {r : Row Cell}

/-- A row with the cells of a superuser is read as an active user with its hash. -/
theorem superuser_read (law : LawfulUsers S G) {email hash : String} {now : DateTime}
    (hread : userModel.fromRow G T (S.complete db userModel.tableName
      (savedCells T userModel now (superuser username email hash now))) = .ok user) :
    isActive user = true ∧ passwordHash user = hash := by
  have hcell (c : String) (v : Cell) (h : (savedCells T userModel now (superuser username email hash now)).lookup c = some v) :=
    law.complete_given db userModel.tableName _ c v h
  constructor
  · have hmember : .field { ident := "is_active", columnName := "is_active", type := .bool } ∈ userModel.modelFields :=
      List.mem_filter.mpr ⟨by simp [userModel, userMembers], rfl⟩
    obtain ⟨c, held, hc, hheld, hlookup⟩ := fromRow_member hread hmember
    obtain rfl := Option.some.inj ((hcell "is_active" (.bool true) rfl).symm.trans hc)
    rw [Member.fromColumn, DerivedField.fromColumn, law.bool] at hheld
    obtain rfl := Except.ok.inj hheld
    have hlookup : user.lookup "is_active" = some (.bool true) := hlookup
    rw [isActive, hlookup]
  · have hmember : .field { ident := "password", columnName := "password", type := .string } ∈ userModel.modelFields :=
      List.mem_filter.mpr ⟨by simp [userModel, userMembers], rfl⟩
    obtain ⟨c, held, hc, hheld, hlookup⟩ := fromRow_member hread hmember
    obtain rfl := Option.some.inj ((hcell "password" (.text hash) rfl).symm.trans hc)
    rw [Member.fromColumn, DerivedField.fromColumn, law.string] at hheld
    obtain rfl := Except.ok.inj hheld
    have hlookup : user.lookup "password" = some (.text hash) := hlookup
    rw [passwordHash, hlookup]

theorem superuser_named (law : LawfulUsers S G) {email hash name : String} {now : DateTime} :
    hasName S name (S.complete db userModel.tableName (savedCells T userModel now (superuser username email hash now))) =
      (username == name) := by
  have hcell := law.complete_given db userModel.tableName (savedCells T userModel now (superuser username email hash now))
    "username" (.text username) rfl
  rw [hasName, hcell, Option.bind_some, law.text_eq]
  cases username == name <;> rfl

theorem named_eq (username : String) : named username =
    .ok ({ filters := [equalTo [("username", .text username)]] } : QuerySet userModel.info) := by
  have hsplit : splitFieldLookup "username" = ("username", "eq") := by decide
  have hcheck : checkFieldMeta userModel.info "username" = .ok "username" := by decide
  rw [named, filter_field hsplit, hcheck]
  rfl

variable [Fmt]

theorem keeps_named (S : Server) (db : Tables Cell) (username : String) (r : Row Cell) :
    QuerySet.keeps S db ({ filters := [equalTo [("username", .text username)]] } : QuerySet userModel.info) r =
      hasName S username r := by
  have hcols : ∀ p ∈ [("username", Value.text username)], ∃ c, fieldToCol userModel.info p.1 = .column c := by
    intro p hp
    obtain rfl := List.mem_singleton.mp hp
    exact ⟨"username", rfl⟩
  refine (keeps_equalTo S db ({} : QuerySet userModel.info) hcols r).trans ?_
  exact Bool.and_true _

/-- The one user of a name logs in with its password. -/
theorem authenticate_eq {verify : String → String → Except String Bool} {password : String}
    (hone : ((db userModel.tableName).filter (hasName S username)).length ≤ 1) (hr : r ∈ db userModel.tableName)
    (hname : hasName S username r = true) (hread : userModel.fromRow G T r = .ok user) (hactive : isActive user = true)
    (hverify : verify password (passwordHash user) = .ok true) :
    authenticate S G T verify db username password = .ok (some user) := by
  have hrows : (db userModel.tableName).filter (hasName S username) = [r] := by
    have hmem : r ∈ (db userModel.tableName).filter (hasName S username) := List.mem_filter.mpr ⟨hr, hname⟩
    obtain ⟨x, hx⟩ := List.length_eq_one_iff.mp (Nat.le_antisymm hone (List.length_pos_of_mem hmem))
    rw [hx] at hmem ⊢
    rw [List.mem_singleton.mp hmem]
  have hall : QuerySet.all S db false (userModel.fromRow G T)
      ({ filters := [equalTo [("username", .text username)]] } : QuerySet userModel.info) = .ok [user] := by
    refine (all_ok_iff rfl).mpr ⟨[r], ?_, ?_⟩
    · rw [fetch_eq rfl, List.filter_congr fun r' _ => keeps_named S db username r']
      have hperm := S.arrange_perm
        (({ filters := [equalTo [("username", .text username)]] } : QuerySet userModel.info).orderSource true)
        ((db userModel.info.tableName).filter (hasName S username))
      have hfiltered : (db userModel.info.tableName).filter (hasName S username) = [r] := hrows
      rw [hfiltered] at hperm ⊢
      rw [List.perm_singleton.mp hperm]
      rfl
    · rw [List.mapM_cons, hread]
      rfl
  have hfound : (named username >>= fun qs => QuerySet.all S db false (userModel.fromRow G T) qs) = .ok [user] := by
    rw [named_eq]
    exact hall
  have hgate : (true && isActive user) = true := hactive
  rw [authenticate, hfound]
  refine Except.bind_eq_ok.mpr ⟨[user], rfl, Except.bind_eq_ok.mpr ⟨true, ?_, ?_⟩⟩
  · exact congrArg (Except.mapError AuthError.hashing) hverify
  · exact congrArg Except.ok (Option.filter_some_pos hgate)

end Users

/-! ### Steps -/

section Steps
variable {ι ρ : Type} [DecidableEq ι] [Fmt] {S : Server} {G : TryGet} {T : TextTypes ρ}
  {verify : String → String → Except String Bool} {creations : ι → Creation} {s s' : Creating ι ρ}

/-- How far a call is, and the user that it has saved. -/
inductive Progress (verify : String → String → Except String Bool) (c : Creation) :
    Option (Creator ρ Unit) → Option (Object ρ) → Prop
  | waiting : Progress verify c none none
  | looking (rest : Except OrmError Bool → Creator ρ Unit) (hrest : createSuperuser c = .call (.exists_ c.username) rest) :
      Progress verify c (some (.call (.exists_ c.username) rest)) none
  | saving (hash : String) (rest : Except OrmError (Object ρ) → Creator ρ Unit)
      (verified : verify c.password hash = .ok true) (failed : ∀ e, ∃ message, rest (.error e) = .done (.error message))
      (saved : ∀ user, rest (.ok user) = .done (.ok ())) :
      Progress verify c (some (.call (.save (superuser c.username c.email hash c.now)) rest)) none
  | failed (message : String) : Progress verify c (some (.done (.error message))) none
  | created (user : Object ρ) : Progress verify c (some (.done (.ok ()))) (some user)

/-- The names are unique, and each call that has saved a user finds it in its row, active and with its password. -/
structure Sound (S : Server) (G : TryGet) (T : TextTypes ρ) (verify : String → String → Except String Bool)
    (creations : ι → Creation) (s : Creating ι ρ) : Prop where
  unique : ∀ username, ((s.tables userModel.tableName).filter (hasName S username)).length ≤ 1
  progress : ∀ i, Progress verify (creations i) (s.calls i) (s.saved i)
  kept : ∀ i user, s.saved i = some user → ∃ r ∈ s.tables userModel.tableName,
    hasName S (creations i).username r = true ∧ userModel.fromRow G T r = .ok user ∧ isActive user = true ∧
      verify (creations i).password (passwordHash user) = .ok true

omit [Fmt] in
/-- After the check, a call fails or goes on to save a user whose password it has hashed. -/
theorem check_progress {c : Creation}
    (hverify : ∀ salt digest, c.hasher c.password = .ok (salt, digest) → verify c.password (phc salt digest) = .ok true)
    {rest : Except OrmError Bool → Creator ρ Unit} (hrest : createSuperuser c = .call (.exists_ c.username) rest)
    (answer : Except OrmError Bool) : Progress verify c (some (rest answer)) none := by
  cases hrest
  cases answer with
  | error e => exact .failed _
  | ok found =>
    cases found with
    | true => exact .failed _
    | false =>
      cases hhash : c.hasher c.password with
      | error e =>
        have hfailed : hashPassword c.hasher c.password = .error (.hashing e) := by rw [hashPassword, hhash]
        show Progress verify c (some (Fallible.lift ((hashPassword c.hasher c.password).mapError AuthError.message) >>= _)) none
        rw [hfailed]
        exact .failed _
      | ok pair =>
        obtain ⟨salt, digest⟩ := pair
        have hhashed : hashPassword c.hasher c.password = .ok (phc salt digest) := by rw [hashPassword, hhash]
        show Progress verify c (some (Fallible.lift ((hashPassword c.hasher c.password).mapError AuthError.message) >>= _)) none
        rw [hhashed]
        exact .saving (phc salt digest) _ (hverify salt digest hhash) (fun e => ⟨_, rfl⟩) fun user => rfl

omit [Fmt] in
/-- The other calls are where they were. -/
theorem progress_update {calls : ι → Option (Creator ρ Unit)} {saved : ι → Option (Object ρ)} {i : ι}
    (h : ∀ j, Progress verify (creations j) (calls j) (saved j)) {p : Creator ρ Unit} {found : Option (Object ρ)}
    (hp : Progress verify (creations i) (some p) found) (j : ι) :
    Progress verify (creations j) (Function.update calls i (some p) j) (Function.update saved i found j) := by
  by_cases hj : j = i
  · subst hj
    rw [Function.update_self, Function.update_self]
    exact hp
  · rw [Function.update_of_ne hj, Function.update_of_ne hj]
    exact h j

omit [Fmt] in
theorem progress_advance {calls : ι → Option (Creator ρ Unit)} {saved : ι → Option (Object ρ)} {i : ι}
    (h : ∀ j, Progress verify (creations j) (calls j) (saved j)) {p : Creator ρ Unit}
    (hp : Progress verify (creations i) (some p) (saved i)) (j : ι) :
    Progress verify (creations j) (Function.update calls i (some p) j) (saved j) := by
  have hprogress := progress_update h hp j
  rwa [Function.update_eq_self] at hprogress

/-- Saving a user of a new name keeps the names unique. -/
theorem save_sound (law : LawfulUsers S G) (h : Sound S G T verify creations s) {i : ι} {hash : String}
    {rest : Except OrmError (Object ρ) → Creator ρ Unit}
    (hfree : ∀ r ∈ s.tables userModel.tableName, hasName S (creations i).username r = false)
    (hverified : verify (creations i).password hash = .ok true)
    (hfailed : ∀ e, ∃ message, rest (.error e) = .done (.error message)) (hsaved : ∀ user, rest (.ok user) = .done (.ok ()))
    (hnone : s.saved i = none) :
    Sound S G T verify creations (s.next S G T creations i
      (.save (superuser (creations i).username (creations i).email hash (creations i).now)) rest) := by
  let user : Object ρ := superuser (creations i).username (creations i).email hash (creations i).now
  rcases save_cases G T userModel S s.tables (creations i).now user with ⟨e, he⟩ | hrow
  · obtain ⟨message, hmessage⟩ := hfailed e
    rw [next, he]
    dsimp only
    rw [hmessage]
    have hsame := Function.update_eq_self i s.saved
    rw [hnone] at hsame
    simp only [Except.toOption, hsame]
    exact ⟨h.unique, progress_advance h.progress (hnone ▸ .failed message), h.kept⟩
  · rw [next, hrow]
    generalize hadded : S.complete s.tables userModel.tableName (savedCells T userModel (creations i).now user) = row
    have hname (name : String) : hasName S name row = ((creations i).username == name) := hadded ▸ superuser_named law
    dsimp only
    constructor
    · intro name
      simp only [Function.update_self, List.filter_append, List.length_append]
      by_cases heq : (creations i).username = name
      · subst heq
        rw [List.filter_eq_nil_iff.mpr fun r hr => by simp [hfree r hr], List.filter_singleton, hname, beq_self_eq_true]
        exact Nat.le_refl 1
      · rw [List.filter_singleton, hname, beq_eq_false_iff_ne.mpr heq]
        exact h.unique name
    · cases hread : userModel.fromRow G T row with
      | error e =>
        obtain ⟨message, hmessage⟩ := hfailed e
        rw [hmessage]
        exact progress_update h.progress (.failed message)
      | ok found =>
        rw [hsaved]
        exact progress_update h.progress (.created found)
    · intro j found hfound
      by_cases hj : j = i
      · subst hj
        simp only [Function.update_self] at hfound
        cases hread : userModel.fromRow G T row with
        | error e =>
          rw [hread] at hfound
          cases hfound
        | ok read =>
          rw [hread] at hfound
          obtain rfl := Option.some.inj hfound
          obtain ⟨hactive, hhash⟩ := superuser_read law (hadded ▸ hread)
          refine ⟨row, ?_, ?_, hread, hactive, ?_⟩
          · simp only [Function.update_self]
            exact List.mem_append_right _ (List.mem_singleton_self _)
          · rw [hname, beq_self_eq_true]
          · rw [hhash]
            exact hverified
      · simp only [Function.update_of_ne hj] at hfound
        obtain ⟨r, hr, hkept⟩ := h.kept j found hfound
        refine ⟨r, ?_, hkept⟩
        simp only [Function.update_self]
        exact List.mem_append_left _ hr

variable (law : LawfulUsers S G)
  (hverify : ∀ i salt digest, (creations i).hasher (creations i).password = .ok (salt, digest) →
    verify (creations i).password (phc salt digest) = .ok true)
include law hverify

theorem advance_sound {e : Creating.Event ι} (h : Sound S G T verify creations s) (ok : NameFree S creations s e)
    (moved : s.advance S G T creations e = some s') : Sound S G T verify creations s' := by
  cases e with
  | start i =>
    rw [advance] at moved
    split at moved
    · rename_i hcall
      obtain rfl := Option.some.inj moved
      have hprogress := h.progress i
      rw [hcall] at hprogress
      refine ⟨h.unique, progress_advance h.progress ?_, h.kept⟩
      generalize s.saved i = found at hprogress
      cases hprogress
      exact .looking _ rfl
    · cases moved
  | step i =>
    rw [advance] at moved
    split at moved
    · rename_i call rest hcall
      obtain rfl := Option.some.inj moved
      have hprogress := h.progress i
      rw [hcall] at hprogress
      generalize hfound : s.saved i = found at hprogress
      cases hprogress with
      | looking rest hrest =>
        exact ⟨h.unique, progress_advance h.progress (hfound ▸ check_progress (hverify i) hrest _), h.kept⟩
      | saving hash rest verified failed saved =>
        exact save_sound law h (ok _ rest hcall) verified failed saved hfound
    · cases moved

theorem reaches_sound {s₀ : Creating ι ρ} (h : Sound S G T verify creations s₀)
    (reaches : Reaches S G T creations (NameFree S creations) s₀ s) : Sound S G T verify creations s := by
  induction reaches with
  | refl => exact h
  | event earlier ok moved ih => exact advance_sound law hverify ih ok moved

end Steps

/-- Names stay unique, and each user that a call has created can log in, in every run in which no row has the name of a user
    when the user is inserted. -/
theorem superusers_login {ι ρ : Type} [DecidableEq ι] [Fmt] {S : Server} {G : TryGet} (law : LawfulUsers S G) (T : TextTypes ρ)
    (verify : String → String → Except String Bool) (creations : ι → Creation)
    (hverify : ∀ i salt digest, (creations i).hasher (creations i).password = .ok (salt, digest) →
      verify (creations i).password (phc salt digest) = .ok true)
    {tables : Tables Cell} (hunique : ∀ username, ((tables userModel.tableName).filter (hasName S username)).length ≤ 1)
    {s : Creating ι ρ} (reaches : Reaches S G T creations (NameFree S creations) (begin_ tables) s) :
    (∀ username, ((s.tables userModel.tableName).filter (hasName S username)).length ≤ 1) ∧
      ∀ i, s.calls i = some (.done (.ok ())) → ∃ user, s.saved i = some user ∧
        authenticate S G T verify s.tables (creations i).username (creations i).password = .ok (some user) := by
  have hstart : Sound S G T verify creations (begin_ tables : Creating ι ρ) :=
    ⟨hunique, fun _ => .waiting, fun _ _ h => by cases h⟩
  have hsound := reaches_sound law hverify hstart reaches
  refine ⟨hsound.unique, fun i hdone => ?_⟩
  have hprogress := hsound.progress i
  rw [hdone] at hprogress
  generalize hfound : s.saved i = found at hprogress
  cases hprogress with
  | created user =>
    obtain ⟨r, hr, hname, hread, hactive, hverified⟩ := hsound.kept i user hfound
    exact ⟨user, rfl, authenticate_eq (hsound.unique _) hr hname hread hactive hverified⟩

/-! ### The schema of users -/

theorem users_structs : ([userModel.info].map (·.structName)).Nodup := List.nodup_singleton _

theorem users_registered : ∀ m ∈ [userModel.info], ∀ r ∈ m.relations, userModel.info ∈ [userModel.info] ∧
    userModel.info.structName = r.target := by
  intro m hm r hr
  obtain rfl := List.mem_singleton.mp hm
  cases hr

def users : Registry where
  models := [userModel.info]
  target _ := userModel.info
  structs := users_structs
  registered := users_registered

def userColumns : List Migrations.ColumnDef := (userModel.info.fields.mapM (Migrations.fieldColumn .postgres)).toOption.getD []

/-- A server that numbers the rows and enforces the constraints of columns. -/
def constrainedServer (columns : List Migrations.ColumnDef) : Server where
  __ := plainServer
  complete db t r := r ++ [("id", .i64 ((db t).length + 1))]
  refuses _ after :=
    if columns.any fun c => (c.unique || c.primaryKey) &&
        !decide ((after userModel.tableName).filterMap (·.lookup c.name)).Nodup then
      some "duplicate key value violates unique constraint"
    else none

theorem constrainedServer_lawful (columns : List Migrations.ColumnDef) : LawfulUsers (constrainedServer columns) plainGet where
  text_eq a b := by
    show some (Cell.text a == Cell.text b) = some (a == b)
    rw [Option.some.injEq, Bool.eq_iff_iff, beq_iff_eq, beq_iff_eq, Cell.text.injEq]
  complete_given db t r c v h := by
    show (r ++ _).lookup c = some v
    rw [List.lookup_append, h]
    rfl
  string _ := rfl
  bool _ := rfl

/-- A hasher that keeps the password, and what it verifies. -/
def keptPassword (password : String) : Except String (String × String) := .ok ("c29tZXNhbHQ", password)

def verifyKept (password hash : String) : Except String Bool := .ok (hash == phc "c29tZXNhbHQ" password)

def root (username password : String) : Creation := ⟨username, "", password, ⟨0⟩, keptPassword⟩

def noUsers : Tables Cell := fun _ => []

section Runs
attribute [local instance] Fmt.decimal

theorem reaches_run {ι ρ : Type} [DecidableEq ι] (S : Server) (G : TryGet) (T : TextTypes ρ) (creations : ι → Creation)
    (events : List (Creating.Event ι)) {s₀ s₁ s : Creating ι ρ}
    (reaches : Reaches S G T creations (fun _ _ => True) s₀ s₁) (h : s₁.run S G T creations events = some s) :
    Reaches S G T creations (fun _ _ => True) s₀ s := by
  induction events generalizing s₁ with
  | nil =>
    cases h
    exact reaches
  | cons e events ih =>
    obtain ⟨s₂, hmoved, h⟩ := Option.bind_eq_some_iff.mp h
    exact ih (reaches.event trivial hmoved) h

/-- Users of two names are created side by side, and both can log in. -/
theorem alice_and_bob :
    ∃ s : Creating Bool String, (∀ i, s.calls i = some (.done (.ok ()))) ∧
      (∀ username, ((s.tables userModel.tableName).filter (hasName (constrainedServer userColumns) username)).length ≤ 1) ∧
      ∀ i, s.calls i = some (.done (.ok ())) → ∃ user, s.saved i = some user ∧
        authenticate (constrainedServer userColumns) plainGet keptTexts verifyKept s.tables
          (if i then root "alice" "one" else root "bob" "two").username
          (if i then root "alice" "one" else root "bob" "two").password = .ok (some user) := by
  have begun : Reaches (constrainedServer userColumns) plainGet keptTexts
      (fun i : Bool => if i then root "alice" "one" else root "bob" "two")
      (NameFree (constrainedServer userColumns) fun i => if i then root "alice" "one" else root "bob" "two")
      (begin_ noUsers) (begin_ noUsers) := .refl
  have looked := (((begun.event (e := .start true) trivial rfl).event (e := .start false) trivial rfl).event
    (e := .step true) (fun _ _ h => by cases h) rfl).event (e := .step false) (fun _ _ h => by cases h) rfl
  have run := (looked.event (e := .step true) (fun _ _ _ r hr => by cases hr) rfl).event (e := .step false)
    (fun _ _ _ r hr => by
      obtain rfl := List.mem_singleton.mp hr
      rfl) rfl
  have empty : ∀ username, ((noUsers userModel.tableName).filter (hasName (constrainedServer userColumns) username)).length ≤ 1 :=
    fun _ => Nat.zero_le 1
  refine ⟨_, fun i => ?_, superusers_login (constrainedServer_lawful userColumns) keptTexts verifyKept _ ?_ empty run⟩
  · cases i <;> rfl
  · intro i salt digest h
    cases i <;> cases h <;> rfl

/-- Two users of one name: both calls succeed under the planned schema, and neither user can log in. -/
theorem admin_locked_out :
    @Migrations.buildCreateAllPlan .ascii users .postgres = .ok [.createTable "auth_user" userColumns []] ∧
    ∃ s : Creating Bool String, Reaches (constrainedServer userColumns) plainGet keptTexts (fun _ => root "admin" "secret")
        (fun _ _ => True) (begin_ noUsers) s ∧
      (∀ i, s.calls i = some (.done (.ok ()))) ∧
      ((s.tables "auth_user").filter (hasName (constrainedServer userColumns) "admin")).length = 2 ∧
      authenticate (constrainedServer userColumns) plainGet keptTexts verifyKept s.tables "admin" "secret" = .ok none := by
  refine ⟨rfl, _, reaches_run (constrainedServer userColumns) plainGet keptTexts _
    [.start false, .start true, .step false, .step true, .step false, .step true] .refl rfl, fun i => ?_, rfl, rfl⟩
  cases i <;> rfl

end Runs

end Djangors.Auth
