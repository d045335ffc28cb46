import Djangors.Tenancy.Resolution
import Djangors.Theorems.Operators
import Djangors.Theorems.Terminals

/-! # Tenant resolution

A request passes through the middleware with a tenant exactly when its header names it and its user is a member of it. The
scope of a request with a tenant is the rows of the tenant, and every other request has an error instead of a scope. -/

namespace Djangors.Tenancy
open Db Sql Http Orm

/-! ### Filters by one value -/

section Filter
variable {m : ModelMeta} {field : String}

/-- A comparison with an integer holds of the rows whose column equals it. -/
theorem truth_equal [Fmt] {S : Server} {db : Tables Cell} (column : String) (hcolumn : fieldToCol m field = .column column)
    (n : Int) (r : Row Cell) :
    ((Expr.and [.compare field .eq (.i64 n)]).truth S db m r == some true) = compares S .eq column (.i64 n) r := by
  have heval : (Expr.and [.compare field .eq (.i64 n)]).truth S db m r =
      (Pred.conj [.cmp (.column column) .eq (.param (.i64 n))]).eval S.interp db [⟨m.tableName, r⟩] := by
    rw [← hcolumn]
    rfl
  rw [heval, Bool.eq_iff_iff, beq_iff_eq, Pred.eval, Pred.evalConj_eq_true, List.forall_mem_singleton, eval_compare]

end Filter

/-! ### The lookup of a membership -/

section Lookup
variable [Fmt] {ι : Type} {D : Database ι} {uid tenantId : Int}

/-- Whether a row is a membership of a user in a tenant. -/
def IsMembership (S : Server) (uid tenantId : Int) (r : Row Cell) : Bool :=
  compares S .eq "user" (.i64 uid) r && compares S .eq "tenant" (.i64 tenantId) r

/-- The database has a membership of the user in the tenant. -/
def Database.HasMembership (D : Database ι) (uid tenantId : Int) : Prop :=
  ∃ r ∈ D.tables membershipMeta.tableName, IsMembership D.server uid tenantId r = true

/-- The query set of `memberships`. -/
def membershipSet (uid tenantId : Int) : QuerySet membershipMeta where
  filters := [.and [.compare "user" .eq (.i64 uid)], .and [.compare "tenant" .eq (.i64 tenantId)]]

omit [Fmt] in
theorem memberships_eq (uid tenantId : Int) : memberships uid tenantId = .ok (membershipSet uid tenantId) := by
  rw [memberships, filter_field (by decide)]
  exact filter_field (by decide) _ _

theorem keeps_membershipSet (S : Server) (db : Tables Cell) (r : Row Cell) :
    (membershipSet uid tenantId).keeps S db r = IsMembership S uid tenantId r := by
  have huser : QuerySet.keeps S db ({} : QuerySet membershipMeta) r = true := rfl
  have hfirst := keeps_concat S db ({} : QuerySet membershipMeta) (.and [.compare "user" .eq (.i64 uid)]) r
  have hsecond := keeps_concat S db ({ filters := [.and [.compare "user" .eq (.i64 uid)]] } : QuerySet membershipMeta)
    (.and [.compare "tenant" .eq (.i64 tenantId)]) r
  rw [truth_equal "tenant" rfl] at hsecond
  rw [truth_equal "user" rfl, huser, Bool.true_and] at hfirst
  exact hsecond.trans (congrArg (· && _) hfirst)

/-- The memberships of a user in a tenant, as the server arranges them. -/
def Database.found (D : Database ι) (uid tenantId : Int) : List (Row Cell) :=
  D.server.arrange [] ((D.tables membershipMeta.tableName).filter (IsMembership D.server uid tenantId))

/-- The lookup decodes the first membership that the server returns. -/
theorem lookup_eq (houtage : D.outage = none) :
    lookup D uid tenantId = ((D.found uid tenantId).take 1).mapM D.fromRow >>= fun items => .ok items.head? := by
  have hfetch : D.server.fetch D.tables
      (QuerySet.select ({ membershipSet uid tenantId with limit := some 1 } : QuerySet membershipMeta) D.server.dialect) =
      .ok ((D.found uid tenantId).take 1) := by
    rw [fetch_eq rfl]
    refine (congrArg _ ?_).trans (limited_some 1 _)
    rw [Database.found, ← List.filter_congr fun r _ => keeps_membershipSet D.server D.tables r]
    rfl
  rw [lookup, memberships_eq]
  simp only [Database.first, houtage]
  refine (congrArg (fun fetched : Except OrmError (List (Row Cell)) => do
    let items ← (← fetched).mapM D.fromRow
    return items.head?) hfetch)

omit [Fmt] in
theorem found_ne_nil_iff : D.found uid tenantId ≠ [] ↔ D.HasMembership uid tenantId := by
  have hperm := D.server.arrange_perm [] ((D.tables membershipMeta.tableName).filter (IsMembership D.server uid tenantId))
  rw [Database.found, ← List.length_pos_iff, hperm.length_eq, List.length_filter_pos_iff]
  rfl

/-- A lookup that succeeds finds something exactly when there is a membership. -/
theorem lookup_found {found : Option ι} (h : lookup D uid tenantId = .ok found) :
    found ≠ none ↔ D.HasMembership uid tenantId := by
  cases houtage : D.outage with
  | some e =>
    rw [lookup, memberships_eq] at h
    simp only [Database.first, houtage] at h
    cases h
  | none =>
    rw [lookup_eq houtage] at h
    obtain ⟨items, hitems, hfound⟩ := Except.bind_eq_ok.mp h
    cases hfound
    have hlength := (Except.mapM_eq_ok.mp hitems).length_eq
    rw [← found_ne_nil_iff, ne_eq, List.head?_eq_none_iff]
    cases hrows : D.found uid tenantId with
    | nil =>
      rw [hrows] at hlength
      simpa [List.length_eq_zero_iff] using hlength.symm
    | cons r rows =>
      rw [hrows] at hlength
      refine iff_of_true (fun hnil => ?_) (List.cons_ne_nil _ _)
      rw [hnil] at hlength
      simp at hlength

end Lookup

/-! ### Requests -/

section Requests
variable [Fmt] {χ ι : Type} (D : Database ι) (userIdExtractor : TenantRequest χ → Option Int) (headers : HeaderMap) (rest : χ)

/-- A request before the middleware. -/
def arriving (headers : HeaderMap) (rest : χ) : TenantRequest χ := ⟨headers, rest, {}⟩

/-- The tenancy extensions that the handler of a request sees. -/
def visible : TenantExtensions := (resolve D userIdExtractor (arriving headers rest)).extensions

/-- The lookup for the request takes place and ends as `outcome`. -/
def LooksUp (tenantId : Int) (outcome : Except OrmError (Option ι)) : Prop :=
  tenantHeader headers = some tenantId ∧ ∃ uid, userIdExtractor (arriving headers rest) = some uid ∧
    lookup D uid tenantId = outcome

variable {D userIdExtractor headers rest}

variable (D userIdExtractor headers rest) in
/-- What the middleware puts on a request, by how the lookup ends. -/
theorem visible_cases :
    (∃ tenantId item, LooksUp D userIdExtractor headers rest tenantId (.ok (some item)) ∧
      visible D userIdExtractor headers rest = ⟨some tenantId, false⟩) ∨
    (∃ tenantId e, LooksUp D userIdExtractor headers rest tenantId (.error e) ∧
      visible D userIdExtractor headers rest = ⟨none, true⟩) ∨
    (∀ tenantId outcome, LooksUp D userIdExtractor headers rest tenantId outcome → outcome = .ok none) ∧
      visible D userIdExtractor headers rest = ⟨none, false⟩ := by
  rw [visible, resolve]
  cases hheader : tenantHeader (arriving headers rest).headers with
  | none => exact .inr (.inr ⟨fun _ _ ⟨h, _⟩ => (by cases hheader.symm.trans h), rfl⟩)
  | some tenantId =>
    cases huser : userIdExtractor (arriving headers rest) with
    | none => exact .inr (.inr ⟨fun _ _ ⟨_, _, h, _⟩ => (by cases huser.symm.trans h), rfl⟩)
    | some uid =>
      dsimp only
      cases hlookup : lookup D uid tenantId with
      | error e => exact .inr (.inl ⟨tenantId, e, ⟨hheader, uid, huser, hlookup⟩, rfl⟩)
      | ok found =>
        cases found with
        | some item => exact .inl ⟨tenantId, item, ⟨hheader, uid, huser, hlookup⟩, rfl⟩
        | none =>
          refine .inr (.inr ⟨fun tenantId' outcome ⟨h, uid', huser', hlookup'⟩ => ?_, rfl⟩)
          cases hheader.symm.trans h
          cases huser.symm.trans huser'
          exact hlookup'.symm.trans hlookup

theorem LooksUp.unique {tenantId tenantId' : Int} {outcome outcome' : Except OrmError (Option ι)}
    (h : LooksUp D userIdExtractor headers rest tenantId outcome)
    (h' : LooksUp D userIdExtractor headers rest tenantId' outcome') : tenantId = tenantId' ∧ outcome = outcome' := by
  obtain ⟨hheader, uid, huser, hlookup⟩ := h
  obtain ⟨hheader', uid', huser', hlookup'⟩ := h'
  cases hheader.symm.trans hheader'
  cases huser.symm.trans huser'
  exact ⟨rfl, hlookup.symm.trans hlookup'⟩

end Requests

/-! ### Scopes -/

section Scope
variable {m : ModelMeta} {tenantField : String}

/-- The scope of a tenant is what the query set selects among the rows of the tenant. -/
def ScopedTo [Fmt] (scope : Except DjangorsError (QuerySet m)) (qs : QuerySet m) (tenantField : String) (tenantId : Int) : Prop :=
  ∃ qs', scope = .ok qs' ∧ ∀ (S : Server) (db : Tables Cell) (r : Row Cell),
    qs'.selected S db r = (qs.selected S db r && compares S .eq (fieldToCol m tenantField).name (.i64 tenantId) r)

theorem tenantScope_current (tenantId : Int) (qs : QuerySet m) : tenantScope ⟨some tenantId, false⟩ qs tenantField =
    Rest.internal (qs.filter (.and [⟨tenantField, .i64 tenantId⟩])) := rfl

theorem tenantScope_known [Fmt] (hplain : splitFieldLookup tenantField = (tenantField, "eq"))
    (hknown : checkFieldMeta m tenantField = .ok tenantField) (tenantId : Int) (qs : QuerySet m) :
    ScopedTo (tenantScope ⟨some tenantId, false⟩ qs tenantField) qs tenantField tenantId := by
  refine ⟨{ qs with filters := qs.filters ++ [.and [.compare tenantField .eq (.i64 tenantId)]] }, ?_, fun S db r => ?_⟩
  · rw [tenantScope_current, filter_field hplain, hknown]
    rfl
  · rw [selected_concat, truth_equal _ (column_of_known hknown)]

theorem tenantScope_unknown (hplain : splitFieldLookup tenantField = (tenantField, "eq"))
    (hunknown : checkFieldMeta m tenantField ≠ .ok tenantField) (tenantId : Int) (qs : QuerySet m) :
    ∃ message, tenantScope ⟨some tenantId, false⟩ qs tenantField = .error (.internal message) := by
  rw [tenantScope_current, filter_field hplain]
  cases h : checkFieldMeta m tenantField with
  | ok name =>
    rw [checkFieldMeta_name h] at h
    exact absurd h hunknown
  | error e => exact ⟨_, rfl⟩

end Scope

/-! ### Soundness -/

/-- The tenant of a request is the one that its header names and its user belongs to, its scope is the rows of the tenant,
    and a request without a tenant has an error for a scope, an internal one if the lookup failed. -/
theorem tenant_context_sound [Fmt] {χ ι : Type} (D : Database ι) (userIdExtractor : TenantRequest χ → Option Int)
    (headers : HeaderMap) (rest : χ) :
    (∀ tenantId, (visible D userIdExtractor headers rest).currentTenant = some tenantId ↔
      tenantHeader headers = some tenantId ∧ ∃ uid, userIdExtractor (arriving headers rest) = some uid ∧
        (∃ found, lookup D uid tenantId = .ok found) ∧ D.HasMembership uid tenantId) ∧
    ∀ (m : ModelMeta) (qs : QuerySet m) (tenantField : String), splitFieldLookup tenantField = (tenantField, "eq") →
      (∀ tenantId, (visible D userIdExtractor headers rest).currentTenant = some tenantId →
        (checkFieldMeta m tenantField = .ok tenantField →
          ScopedTo (tenantScope (visible D userIdExtractor headers rest) qs tenantField) qs tenantField tenantId) ∧
        (checkFieldMeta m tenantField ≠ .ok tenantField → ∃ message,
          tenantScope (visible D userIdExtractor headers rest) qs tenantField = .error (.internal message))) ∧
      ((visible D userIdExtractor headers rest).currentTenant = none → ∃ e,
        tenantScope (visible D userIdExtractor headers rest) qs tenantField = .error e) ∧
      ((∃ tenantId e, LooksUp D userIdExtractor headers rest tenantId (.error e)) → ∃ message,
        tenantScope (visible D userIdExtractor headers rest) qs tenantField = .error (.internal message)) ∧
      ((visible D userIdExtractor headers rest).currentTenant = none →
        (¬∃ tenantId e, LooksUp D userIdExtractor headers rest tenantId (.error e)) → ∃ message,
          tenantScope (visible D userIdExtractor headers rest) qs tenantField = .error (.unauthorized message)) := by
  have hmember (tenantId : Int) : (tenantHeader headers = some tenantId ∧ ∃ uid,
      userIdExtractor (arriving headers rest) = some uid ∧ (∃ found, lookup D uid tenantId = .ok found) ∧
        D.HasMembership uid tenantId) ↔
      ∃ item, LooksUp D userIdExtractor headers rest tenantId (.ok (some item)) := by
    constructor
    · rintro ⟨hheader, uid, huser, ⟨found, hfound⟩, hmember⟩
      obtain ⟨item, rfl⟩ := Option.ne_none_iff_exists'.mp ((lookup_found hfound).mpr hmember)
      exact ⟨item, hheader, uid, huser, hfound⟩
    · rintro ⟨item, hheader, uid, huser, hfound⟩
      exact ⟨hheader, uid, huser, ⟨_, hfound⟩, (lookup_found hfound).mp nofun⟩
  simp only [hmember]
  rcases visible_cases D userIdExtractor headers rest with
    ⟨tenantId, item, hlooks, hvisible⟩ | ⟨tenantId, e, hlooks, hvisible⟩ | ⟨hnone, hvisible⟩
  · rw [hvisible]
    have hfails : ¬∃ tenantId e, LooksUp D userIdExtractor headers rest tenantId (.error e) := by
      rintro ⟨tenantId', e, hlooks'⟩
      cases (hlooks.unique hlooks').2
    refine ⟨fun tenantId' => ⟨?_, ?_⟩, fun m qs tenantField hplain => ⟨?_, nofun, fun h => absurd h hfails, nofun⟩⟩
    · rintro h
      cases h
      exact ⟨item, hlooks⟩
    · rintro ⟨item', hlooks'⟩
      exact congrArg some (hlooks.unique hlooks').1
    · rintro _ h
      cases h
      exact ⟨fun hknown => tenantScope_known hplain hknown tenantId qs,
        fun hunknown => tenantScope_unknown hplain hunknown tenantId qs⟩
  · rw [hvisible]
    refine ⟨fun tenantId' => ⟨nofun, ?_⟩, fun m qs tenantField _ =>
      ⟨nofun, fun _ => ⟨_, rfl⟩, fun _ => ⟨_, rfl⟩, fun _ hfails => absurd ⟨tenantId, e, hlooks⟩ hfails⟩⟩
    rintro ⟨item', hlooks'⟩
    cases (hlooks.unique hlooks').2
  · rw [hvisible]
    refine ⟨fun tenantId' => ⟨nofun, ?_⟩, fun m qs tenantField _ => ⟨nofun, fun _ => ⟨_, rfl⟩, ?_, fun _ _ => ⟨_, rfl⟩⟩⟩
    · rintro ⟨item, hlooks⟩
      cases hnone _ _ hlooks
    · rintro ⟨tenantId, e, hlooks⟩
      cases hnone _ _ hlooks

/-- User 3 is a member of tenant 7. -/
def oneMember : Database (Row Cell) where
  server := plainServer
  tables t := if t = "djangors_tenancy_membership" then [[("id", .i64 1), ("user", .i64 3), ("tenant", .i64 7)]] else []
  fromRow := .ok
  outage := none

def headerSeven : HeaderMap := [("x-tenant-id".toList, [55])]

/-- The member's request for tenant 7 is scoped to the tenant. -/
theorem member_scoped : @ScopedTo membershipMeta .decimal
    (tenantScope (@visible .decimal _ _ oneMember (fun _ => some 3) headerSeven ()) {} "tenant") {} "tenant" 7 :=
  (((@tenant_context_sound .decimal _ _ oneMember (fun _ => some 3) headerSeven ()).2 membershipMeta {} "tenant"
    (by decide)).1 7 (((@tenant_context_sound .decimal _ _ oneMember (fun _ => some 3) headerSeven ()).1 7).mpr
      ⟨by decide, 3, rfl, ⟨_, rfl⟩, _, List.mem_singleton_self _, by decide⟩)).1 rfl

end Djangors.Tenancy
