import Djangors.Lib.Except
import Djangors.Theorems.Sections

/-! # The migration history

Each file runs in a transaction that also writes its name to the history, so whatever fails, the history lists
the migrations that are in effect. -/

namespace Djangors.Migrations
open Program

section Runs
variable {σ : Type} {server : List Char → σ → Option σ} {s s' : Session σ} {db db' : Database σ}
  {result : Except RunError Unit}

/-! ### Transactions -/

theorem runs_andThen {α β : Type} {run : Run α} {next : α → Run β} {b : Except RunError β}
    (h : (run.andThen next).Runs (exec server) s s' b) :
    (∃ u a, run.Runs (exec server) s u (.ok a) ∧ (next a).Runs (exec server) u s' b) ∨
      ∃ e, run.Runs (exec server) s s' (.error e) ∧ b = .error e := by
  rcases runs_bind.mp h with ⟨u, a | e, hrun, hnext⟩
  · rcases runs_done.mp hnext with ⟨rfl, rfl⟩
    exact .inr ⟨_, hrun, rfl⟩
  · exact .inl ⟨u, _, hrun, hnext⟩

theorem runs_statement {statement : Statement} {α : Type} {next : Option Unit → Run α} {a : Except RunError α}
    (hdb : s.working = some db) (h : (Program.call (.statement statement) next : Run α).Runs (exec server) s s' a) :
    (∃ gap db', statement.exec server gap db = some db' ∧
        (next (some ())).Runs (exec server) { s with working := some db' } s' a) ∨
      (next none).Runs (exec server) s s' a := by
  rcases runs_call.mp h with ⟨_ | gap, h⟩
  · exact .inr h
  · rw [exec, DbCall.exec, hdb, Option.bind_some] at h
    cases hexec : statement.exec server gap db with
    | none =>
      rw [hexec] at h
      exact .inr h
    | some db' =>
      rw [hexec] at h
      exact .inl ⟨gap, db', hexec, h⟩

/-- The statements of a file, and then the one on the history. -/
theorem runs_executeAll {sqls : List (List Char)} {last : Statement} (hdb : s.working = some db)
    (h : (executeAll (sqls.map .execute ++ [last])).Runs (exec server) s s' result) :
    s'.committed = s.committed ∧ (result = .ok () → ∃ schema gap db', script server sqls db.schema = some schema ∧
      last.exec server gap { db with schema } = some db' ∧ s'.working = some db') := by
  induction sqls generalizing s db with
  | nil =>
    rcases runs_statement hdb h with ⟨gap, db', hlast, h⟩ | h
    · rcases runs_done.mp h with ⟨rfl, rfl⟩
      exact ⟨rfl, fun _ => ⟨_, gap, db', rfl, hlast, rfl⟩⟩
    · rcases runs_done.mp h with ⟨rfl, rfl⟩
      exact ⟨rfl, nofun⟩
  | cons sql sqls ih =>
    rcases runs_statement hdb h with ⟨gap, db', hsql, h⟩ | h
    · rcases Option.map_eq_some_iff.mp hsql with ⟨schema, hschema, rfl⟩
      rcases ih rfl h with ⟨hcommitted, hok⟩
      refine ⟨hcommitted, fun hresult => ?_⟩
      rcases hok hresult with ⟨schema', gap', db'', hscript, hlast, hworking⟩
      refine ⟨schema', gap', db'', ?_, hlast, hworking⟩
      rw [script, List.foldlM_cons, hschema]
      exact hscript
    · rcases runs_done.mp h with ⟨rfl, rfl⟩
      exact ⟨rfl, nofun⟩

/-- A transaction commits all of its statements or none. -/
theorem runs_transaction {sqls : List (List Char)} {last : Statement} (hopen : s.working = none)
    (h : (transactionConn (sqls.map .execute ++ [last])).Runs (exec server) s s' result) :
    s'.working = none ∧ ((result = .ok () ∧ ∃ schema gap, script server sqls s.committed.schema = some schema ∧
        last.exec server gap { s.committed with schema } = some s'.committed) ∨
      (∃ e, result = .error e) ∧ s'.committed = s.committed) := by
  rcases runs_call.mp h with ⟨_ | gap, h⟩
  · rcases runs_done.mp h with ⟨rfl, rfl⟩
    exact ⟨hopen, .inr ⟨⟨_, rfl⟩, rfl⟩⟩
  · rcases runs_bind.mp h with ⟨u, e | _, hbody, hend⟩
    · rcases runs_executeAll rfl hbody with ⟨hcommitted, -⟩
      rcases runs_call.mp hend with ⟨_ | _, hend⟩ <;> rcases runs_done.mp hend with ⟨rfl, rfl⟩
      · exact ⟨rfl, .inr ⟨⟨_, rfl⟩, hcommitted⟩⟩
      · exact ⟨rfl, .inr ⟨⟨_, rfl⟩, hcommitted⟩⟩
    · rcases runs_executeAll rfl hbody with ⟨hcommitted, hok⟩
      rcases hok rfl with ⟨schema, gap', db', hscript, hlast, hworking⟩
      rcases runs_call.mp hend with ⟨_ | _, hend⟩ <;> rcases runs_done.mp hend with ⟨rfl, rfl⟩
      · exact ⟨rfl, .inr ⟨⟨_, rfl⟩, hcommitted⟩⟩
      · refine ⟨rfl, .inl ⟨rfl, schema, gap', hscript, ?_⟩⟩
        change _ = some (u.working.getD u.committed)
        rw [hworking, hlast]
        rfl

/-! ### The history -/

theorem names_record {gap : Nat} {name : String} (h : (Statement.record name).exec server gap db = some db') :
    db'.schema = db.schema ∧ db'.names = db.names ++ [name] ∧ db'.history ≠ none := by
  rcases Option.map_eq_some_iff.mp h with ⟨history', hrecord, rfl⟩
  rcases Option.bind_eq_some_iff.mp hrecord with ⟨history, hhistory, hrecord⟩
  rw [History.record] at hrecord
  split at hrecord
  · cases hrecord
  · cases hrecord
    refine ⟨rfl, ?_, Option.some_ne_none _⟩
    rw [Database.names, Database.names, hhistory]
    exact List.map_append

theorem nodup_names (db : Database σ) : db.names.Nodup := by
  rw [Database.names]
  split
  · exact History.names _
  · exact List.nodup_nil

theorem names_forget {gap : Nat} {name : String} (h : (Statement.forget name).exec server gap db = some db') :
    db'.schema = db.schema ∧ db'.names = db.names.erase name ∧ db'.history ≠ none := by
  rcases Option.map_eq_some_iff.mp h with ⟨history, hhistory, rfl⟩
  refine ⟨rfl, ?_, Option.some_ne_none _⟩
  have hnames : db.names = history.rows.map (·.name) := by rw [Database.names, hhistory]
  rw [(nodup_names db).erase_eq_filter, hnames, List.filter_map]
  rfl

/-- The newest rows come last. -/
theorem recent_eq (history : History) (known : List String) (limit : Nat) :
    history.recent known limit = ((history.rows.map (·.name)).filter fun name => decide (name ∈ known)).reverse.take limit := by
  have hsorted : ((history.rows.filter fun row => decide (row.name ∈ known)).reverse).Pairwise fun a b =>
      decide (b.id ≤ a.id) = true := by
    rw [List.pairwise_reverse]
    have hrows := List.pairwise_map.mp history.increasing
    exact (hrows.sublist List.filter_sublist).imp fun hlt => decide_eq_true (Nat.le_of_lt hlt)
  have hsort : (history.rows.filter fun row => decide (row.name ∈ known)).mergeSort (fun a b => decide (b.id ≤ a.id)) =
      (history.rows.filter fun row => decide (row.name ∈ known)).reverse := by
    have hids : (history.rows.map (·.id)).Nodup := history.increasing.imp Nat.ne_of_lt
    refine List.Perm.eq_of_pairwise ?_ (List.pairwise_mergeSort ?_ ?_ _) hsorted
      ((List.mergeSort_perm _ _).trans (List.reverse_perm _).symm)
    · intro a b ha hb hab hba
      have ha := (List.mem_filter.mp (List.mem_mergeSort.mp ha)).1
      have hb := (List.mem_filter.mp (List.mem_reverse.mp hb)).1
      exact List.inj_on_of_nodup_map hids ha hb (Nat.le_antisymm (of_decide_eq_true hba) (of_decide_eq_true hab))
    · intro a b c hab hbc
      exact decide_eq_true (Nat.le_trans (of_decide_eq_true hbc) (of_decide_eq_true hab))
    · intro a b
      rw [Bool.or_eq_true, decide_eq_true_eq, decide_eq_true_eq]
      exact Nat.le_total ..
  rw [History.recent, hsort, List.filter_map, ← List.map_reverse, ← List.map_take]
  rfl

/-! ### Commands -/

section InOrder
variable {α : Type} {step : Effect σ → α → Option (Effect σ)} {work : List α} {before middle after : Effect σ}

theorem InOrder.nil : InOrder step [] before result before := ⟨[], [], rfl, rfl, fun _ => rfl⟩

theorem InOrder.stops {e : RunError} (h : result = .error e) : InOrder step work before result before :=
  ⟨[], work, rfl, rfl, fun hok => nomatch h.symm.trans hok⟩

theorem InOrder.cons {a : α} (first : step before a = some middle) (h : InOrder step work middle result after) :
    InOrder step (a :: work) before result after := by
  rcases h with ⟨done, rest, rfl, hdone, hok⟩
  refine ⟨a :: done, rest, rfl, ?_, hok⟩
  rw [List.foldlM_cons, first]
  exact hdone

end InOrder

/-- The history is there, and no transaction is open. -/
structure Rests (s : Session σ) : Prop where
  closed : s.working = none
  history : s.committed.history ≠ none

theorem exec_isApplied {name : String} (h : s.committed.history ≠ none) (gap : Nat) :
    exec server (.works gap) (.isApplied name) s = (s, some (decide (name ∈ s.committed.names))) := by
  rcases Option.ne_none_iff_exists'.mp h with ⟨history, hhistory⟩
  rw [exec, DbCall.exec, Database.names, hhistory]
  rfl

theorem exec_recent {known : List String} {limit : Nat} (h : s.committed.history ≠ none) (gap : Nat) :
    exec server (.works gap) (.recent known limit) s =
      (s, some ((s.committed.names.filter fun name => decide (name ∈ known)).reverse.take limit)) := by
  rcases Option.ne_none_iff_exists'.mp h with ⟨history, hhistory⟩
  rw [exec, DbCall.exec, Database.names, hhistory]
  exact congrArg (fun names => (s, some names)) (recent_eq history known limit)

/-- The pending files are applied in order. -/
theorem runs_migrateFiles {files : List File} (rests : Rests s) (stems : (files.map (·.stem)).Nodup)
    (cuts : ∀ file ∈ files, file.stem ∉ s.committed.names → ∀ text, file.text = some text → CutsBlanks text "up")
    (h : (migrateFiles files).Runs (exec server) s s' result) :
    Rests s' ∧ InOrder (Effect.apply server) (files.filter fun file => decide (file.stem ∉ s.committed.names))
      s.committed.effect result s'.committed.effect := by
  induction files generalizing s with
  | nil =>
    rcases runs_done.mp h with ⟨rfl, rfl⟩
    exact ⟨rests, .nil⟩
  | cons file files ih =>
    have hstem := (List.nodup_cons.mp stems).1
    have stems' := (List.nodup_cons.mp stems).2
    rcases runs_call.mp h with ⟨_ | gap, h⟩
    · rcases runs_done.mp h with ⟨rfl, rfl⟩
      exact ⟨rests, .stops rfl⟩
    rw [exec_isApplied rests.history] at h
    by_cases happlied : file.stem ∈ s.committed.names
    · rw [decide_eq_true happlied] at h
      rw [List.filter_cons_of_neg (by simpa using happlied)]
      exact ih rests stems' (fun file hfile => cuts file (List.mem_cons_of_mem _ hfile)) h
    rw [decide_eq_false happlied] at h
    rw [List.filter_cons_of_pos (by simpa using happlied)]
    dsimp only at h
    cases htext : file.text with
    | none =>
      rw [htext] at h
      rcases runs_done.mp h with ⟨rfl, rfl⟩
      exact ⟨rests, .stops rfl⟩
    | some text =>
      rw [htext] at h
      dsimp only at h
      cases hup : sectionOf text "up" with
      | none =>
        rw [hup] at h
        rcases runs_done.mp h with ⟨rfl, rfl⟩
        exact ⟨rests, .stops rfl⟩
      | some up =>
        rw [hup] at h
        rcases runs_andThen h with ⟨u, _, hone, hmore⟩ | ⟨e, hone, rfl⟩
        · rcases runs_transaction rests.closed hone with ⟨hclosed, ⟨-, schema, gap, hscript, hlast⟩ | ⟨⟨_, herror⟩, -⟩⟩
          · rcases names_record hlast with ⟨hschema, hnames, hhistory⟩
            rw [statements_section (cuts file (List.mem_cons_self ..) happlied text htext) hup] at hscript
            have hnames' : ∀ later ∈ files, (later.stem ∉ u.committed.names ↔ later.stem ∉ s.committed.names) := by
              intro later hlater
              have hne : later.stem ≠ file.stem := fun heq => hstem (List.mem_map.mpr ⟨later, hlater, heq⟩)
              rw [hnames, List.mem_append, List.mem_singleton, or_iff_left hne]
              rfl
            rcases ih ⟨hclosed, hhistory⟩ stems' (fun later hlater hnew =>
              cuts later (List.mem_cons_of_mem _ hlater) ((hnames' later hlater).mp hnew)) hmore with ⟨rests', horder⟩
            have hfirst : Effect.apply server s.committed.effect file = some u.committed.effect := by
              rw [Effect.apply, htext, Database.effect, Database.effect, hschema, hnames, Option.bind_eq_bind,
                Option.bind_some, hscript]
              rfl
            rw [List.filter_congr fun later hlater => decide_eq_decide.mpr (hnames' later hlater)] at horder
            exact ⟨rests', .cons hfirst horder⟩
          · cases herror
        · rcases runs_transaction rests.closed hone with ⟨hclosed, ⟨hok, -⟩ | ⟨-, hcommitted⟩⟩
          · cases hok
          · refine ⟨⟨hclosed, hcommitted ▸ rests.history⟩, ?_⟩
            rw [hcommitted]
            exact .stops rfl

/-- The newest migrations are taken back, the last one first. -/
theorem runs_undoAll {dir : Directory} {downs : List (String × List Char)} (rests : Rests s)
    (reads : ∀ down ∈ downs, ∃ text, dir.read (down.1 ++ ".sql") = some text ∧ sectionOf text "down" = some down.2 ∧
      CutsBlanks text "down") (h : (undoAll downs).Runs (exec server) s s' result) :
    Rests s' ∧ InOrder (Effect.undo server dir) (downs.map (·.1)) s.committed.effect result s'.committed.effect := by
  induction downs generalizing s with
  | nil =>
    rcases runs_done.mp h with ⟨rfl, rfl⟩
    exact ⟨rests, .nil⟩
  | cons down downs ih =>
    rcases reads down (List.mem_cons_self ..) with ⟨text, htext, hdown, hcuts⟩
    rcases runs_andThen h with ⟨u, _, hone, hmore⟩ | ⟨e, hone, rfl⟩
    · rcases runs_transaction rests.closed hone with ⟨hclosed, ⟨-, schema, gap, hscript, hlast⟩ | ⟨⟨_, herror⟩, -⟩⟩
      · rcases names_forget hlast with ⟨hschema, hnames, hhistory⟩
        rw [statements_section hcuts hdown] at hscript
        rcases ih ⟨hclosed, hhistory⟩ (fun later hlater => reads later (List.mem_cons_of_mem _ hlater)) hmore
          with ⟨rests', horder⟩
        have hfirst : Effect.undo server dir s.committed.effect down.1 = some u.committed.effect := by
          rw [Effect.undo, htext, Database.effect, Database.effect, hschema, hnames, Option.bind_eq_bind,
            Option.bind_some, hscript]
          rfl
        exact ⟨rests', .cons hfirst horder⟩
      · cases herror
    · rcases runs_transaction rests.closed hone with ⟨hclosed, ⟨hok, -⟩ | ⟨-, hcommitted⟩⟩
      · cases hok
      · refine ⟨⟨hclosed, hcommitted ▸ rests.history⟩, ?_⟩
        rw [hcommitted]
        exact .stops rfl

/-- The name of a migration file is its stem with the extension. -/
theorem name_eq {file : File} (h : file.isMigration = true) : file.name.toList = file.stem.toList ++ ".sql".toList := by
  rw [File.isMigration, Bool.and_eq_true, Bool.and_eq_true, decide_eq_true_eq] at h
  rcases h.1.1 with ⟨l, hl⟩
  have hlen : file.name.length - 4 = l.length := by
    rw [← String.length_toList, ← hl, List.length_append]
    rfl
  rw [File.stem, String.toList_ofList, hlen, ← hl, List.take_left]

theorem nodup_stems (dir : Directory) : (dir.sorted.map (·.stem)).Nodup := by
  have hfiles : dir.sorted.Nodup :=
    (List.mergeSort_perm _ _).nodup_iff.mpr ((List.Nodup.of_map _ dir.names).sublist List.filter_sublist)
  have hmem : ∀ file ∈ dir.sorted, file.isMigration = true ∧ file ∈ dir.files := by
    intro file hfile
    exact (List.mem_filter.mp (List.mem_mergeSort.mp hfile)).symm
  refine hfiles.map_on fun a ha b hb heq => ?_
  rcases hmem a ha with ⟨ha, hafiles⟩
  rcases hmem b hb with ⟨hb, hbfiles⟩
  refine List.inj_on_of_nodup_map dir.names hafiles hbfiles (String.toList_inj.mp ?_)
  rw [name_eq ha, name_eq hb, heq]

theorem runs_migrate {dir : Directory} (rests : Rests s) (cuts : (Command.migrate (some dir)).CutsRight s.committed)
    (h : (migrateFiles dir.sorted).Runs (exec server) s s' result) :
    Rests s' ∧ Does server s.committed.effect result s'.committed.effect (.migrate (some dir)) :=
  runs_migrateFiles rests (nodup_stems dir)
    (fun file hfile hnew => cuts file (List.mem_filter.mpr ⟨hfile, decide_eq_true hnew⟩)) h

theorem downSection_eq_ok {dir : Directory} {name : String} {down : List Char} (h : downSection dir name = .ok down) :
    ∃ text, dir.read (name ++ ".sql") = some text ∧ sectionOf text "down" = some down := by
  rw [downSection] at h
  split at h
  · cases h
  · rename_i text htext
    split at h
    · cases h
    · rename_i down' hdown
      split at h
      · cases h
      · cases h
        exact ⟨text, htext, hdown⟩

/-- What the runner has read for the names that it takes back. -/
theorem downs_read {dir : Directory} {names : List String} {downs : List (String × List Char)}
    (h : (names.mapM fun name => (downSection dir name).map (name, ·)) = .ok downs) :
    downs.map (·.1) = names ∧
      ∀ down ∈ downs, ∃ text, dir.read (down.1 ++ ".sql") = some text ∧ sectionOf text "down" = some down.2 := by
  induction Except.mapM_eq_ok.mp h with
  | nil => exact ⟨rfl, nofun⟩
  | cons hone hmore ih =>
    rcases ih (Except.mapM_eq_ok.mpr hmore) with ⟨hnames, hread⟩
    rename_i name down _ _
    cases hdown : downSection dir name with
    | error e =>
      rw [hdown] at hone
      cases hone
    | ok text =>
      rw [hdown] at hone
      cases hone
      rw [List.map_cons, hnames]
      exact ⟨rfl, List.forall_mem_cons.mpr ⟨downSection_eq_ok hdown, hread⟩⟩

theorem runs_rollback {dir : Directory} {count : Nat} (rests : Rests s)
    (cuts : (Command.rollback (some dir) count).CutsRight s.committed)
    (h : (rollbackKnown dir (dir.migrationFiles.map (·.stem)) count).Runs (exec server) s s' result) :
    Rests s' ∧ Does server s.committed.effect result s'.committed.effect (.rollback (some dir) count) := by
  rcases runs_call.mp h with ⟨_ | gap, h⟩
  · rcases runs_done.mp h with ⟨rfl, rfl⟩
    exact ⟨rests, .stops rfl⟩
  rw [exec_recent rests.history] at h
  dsimp only at h
  split at h
  · rcases runs_done.mp h with ⟨rfl, rfl⟩
    exact ⟨rests, .stops rfl⟩
  · rename_i downs hdowns
    rcases downs_read hdowns with ⟨hnames, hread⟩
    have reads : ∀ down ∈ downs, ∃ text, dir.read (down.1 ++ ".sql") = some text ∧ sectionOf text "down" = some down.2 ∧
        CutsBlanks text "down" := by
      intro down hdown
      rcases hread down hdown with ⟨text, htext, hsection⟩
      have hmem : down.1 ∈ newest dir count s.committed.names := by
        rw [newest, ← hnames]
        exact List.mem_map_of_mem hdown
      exact ⟨text, htext, hsection, cuts down.1 hmem text htext⟩
    have horder := runs_undoAll rests reads h
    rw [hnames] at horder
    exact horder

/-- A missing table of the history is made empty. -/
theorem runs_ensureHistory {next : Option Unit → Run Unit} (closed : s.working = none)
    (h : (Program.call .ensureHistory next : Run Unit).Runs (exec server) s s' result) :
    (∃ u, Rests u ∧ u.committed.effect = s.committed.effect ∧ (next (some ())).Runs (exec server) u s' result) ∨
      (next none).Runs (exec server) s s' result := by
  rcases runs_call.mp h with ⟨_ | gap, h⟩
  · exact .inr h
  · have hnames : ({ s.committed with history := some (s.committed.history.getD .empty) } : Database σ).names =
        s.committed.names := by
      unfold Database.names
      cases s.committed.history <;> rfl
    refine .inl ⟨{ s with committed.history := some (s.committed.history.getD .empty) }, ⟨closed, ?_⟩, ?_, h⟩
    · exact Option.some_ne_none _
    · rw [Database.effect, hnames]
      rfl

/-- Each command does what it is to do. -/
theorem runs_command {command : Command} (closed : s.working = none) (cuts : command.CutsRight s.committed)
    (h : command.run.Runs (exec server) s s' result) :
    s'.working = none ∧ Does server s.committed.effect result s'.committed.effect command := by
  cases command with
  | migrate dir =>
    rcases runs_ensureHistory closed h with ⟨u, rests, heffect, h⟩ | h
    · have hnames : u.committed.names = s.committed.names := congrArg Effect.inEffect heffect
      rw [← heffect]
      cases dir with
      | none =>
        rcases runs_done.mp h with ⟨rfl, rfl⟩
        exact ⟨rests.closed, nofun, rfl⟩
      | some dir =>
        have cuts' : (Command.migrate (some dir)).CutsRight u.committed := by
          rw [Command.CutsRight, hnames]
          exact cuts
        exact (runs_migrate rests cuts' h).imp_left Rests.closed
    · rcases runs_done.mp h with ⟨rfl, rfl⟩
      cases dir with
      | none => exact ⟨closed, nofun, rfl⟩
      | some dir => exact ⟨closed, .stops rfl⟩
  | rollback dir count =>
    rcases runs_ensureHistory closed h with ⟨u, rests, heffect, h⟩ | h
    · have hnames : u.committed.names = s.committed.names := congrArg Effect.inEffect heffect
      rw [← heffect]
      cases dir with
      | none =>
        rcases runs_done.mp h with ⟨rfl, rfl⟩
        exact ⟨rests.closed, nofun, rfl⟩
      | some dir =>
        dsimp only at h
        split at h
        · rename_i hknown
          rcases runs_done.mp h with ⟨rfl, rfl⟩
          refine ⟨rests.closed, ?_⟩
          rw [Does, newest, hknown]
          simp only [List.not_mem_nil, decide_false, List.filter_false, List.reverse_nil, List.take_nil]
          exact .nil
        · have cuts' : (Command.rollback (some dir) count).CutsRight u.committed := by
            rw [Command.CutsRight, hnames]
            exact cuts
          exact (runs_rollback rests cuts' h).imp_left Rests.closed
    · rcases runs_done.mp h with ⟨rfl, rfl⟩
      cases dir with
      | none => exact ⟨closed, nofun, rfl⟩
      | some dir => exact ⟨closed, .stops rfl⟩

/-- In every run of commands whose files are cut right, whatever fails, the history lists the migrations that are in
    effect, and each command has done what it is to do. -/
theorem history_in_step {start : Database σ} {past : List (Command × Except RunError Unit)}
    (ran : Ran server start (fun command db => command.CutsRight db) past s) :
    Follows server start.effect past s.committed.effect := by
  have inv : s.working = none ∧ Follows server start.effect past s.committed.effect := by
    induction ran with
    | start => exact ⟨rfl, .start⟩
    | next _ cuts run ih =>
      rcases runs_command ih.1 cuts run with ⟨closed, does⟩
      exact ⟨closed, .next ih.2 does⟩
  exact inv.2

end Runs

/-! ### Carriage returns -/

section Single
variable {σ : Type} {server : List Char → σ → Option σ} {start before after : Effect σ}

theorem follows_nil (h : Follows server start [] after) : after = start := by
  generalize hp : [] = past at h
  cases h with
  | start => rfl
  | next => exact absurd hp.symm (List.append_ne_nil_of_right_ne_nil _ (List.cons_ne_nil _ _))

theorem follows_single {command : Command} {result : Except RunError Unit}
    (h : Follows server start [(command, result)] after) : Does server start result after command := by
  generalize hp : [(command, result)] = past at h
  cases h with
  | start => cases hp
  | next earlier does =>
    rcases List.append_inj' (show [] ++ [(command, result)] = _ from hp) rfl with ⟨rfl, heq⟩
    cases heq
    rw [follows_nil earlier] at does
    exact does

end Single

/-- A server that keeps the statements it has executed. -/
def keeping (sql : List Char) (kept : List (List Char)) : Option (List (List Char)) := some (kept ++ [sql])

/-- A database without a history. -/
def fresh : Database (List (List Char)) := ⟨[], none⟩

/-- A directory with one migration file. -/
def singleDirectory (file : File) : Directory := ⟨[file], by simp⟩

def notesFile : File :=
  ⟨"0001_notes.sql", some "-- up\nCREATE TABLE notes (id INT);\n-- down\nDROP TABLE notes;\n".toList⟩

/-- A file whose lines end with `\r\n`, with blank lines between its two statements. -/
def crlfFile : File :=
  ⟨"0001_notes.sql", some ("-- up\r\nCREATE TABLE notes (id INT);\r\n".toList ++
    (List.replicate 14 ['\r', '\n']).flatten ++ "DROP TABLE old;\r\n-- down\r\nDROP TABLE notes;\r\n".toList)⟩

/-- The history after a file has run. -/
def notesHistory : History := (History.empty.record 0 "0001_notes").get rfl

theorem sorted_single {file : File} (h : file.isMigration = true) : (singleDirectory file).sorted = [file] := by
  rw [Directory.sorted, Directory.migrationFiles, singleDirectory, List.filter_cons_of_pos h, List.filter_nil,
    List.mergeSort_singleton]

theorem run_single {file : File} (h : file.isMigration = true) {s : Session (List (List Char))}
    (hrun : (migrateFiles [file]).run (exec keeping) [] ⟨⟨[], some .empty⟩, none⟩ = (s, .ok ())) :
    (Command.migrate (some (singleDirectory file))).run.Runs (exec keeping) ⟨fresh, none⟩ s (.ok ()) := by
  refine ⟨[], ?_⟩
  rw [Command.run, migrateFromDir]
  simp only [sorted_single h]
  exact hrun

/-- Files with `\n` at the ends of their lines are run as they stand. -/
theorem notes_in_step : ∃ s, Ran keeping fresh (fun command db => command.CutsRight db)
      [(.migrate (some (singleDirectory notesFile)), .ok ())] s ∧
    Follows keeping fresh.effect [(.migrate (some (singleDirectory notesFile)), .ok ())] s.committed.effect := by
  have cuts : (Command.migrate (some (singleDirectory notesFile))).CutsRight fresh := by
    intro file hfile text htext
    rw [pending, sorted_single rfl] at hfile
    obtain rfl := List.mem_singleton.mp (List.mem_filter.mp hfile).1
    cases htext
    exact cutsBlanks_of_noReturn (by decide)
  have ran : Ran keeping fresh (fun command db => command.CutsRight db)
      ([] ++ [(.migrate (some (singleDirectory notesFile)), .ok ())])
      ⟨⟨["CREATE TABLE notes (id INT);".toList], some notesHistory⟩, none⟩ :=
    .next .start cuts (run_single rfl rfl)
  exact ⟨_, ran, history_in_step ran⟩

/-- The last statement of the up section is cut off, and the history lists the migration all the same. -/
theorem crlf_out_of_step : ∃ s, Ran keeping fresh (fun _ _ => True)
      [(.migrate (some (singleDirectory crlfFile)), .ok ())] s ∧
    s.committed.names = ["0001_notes"] ∧ s.committed.schema = ["CREATE TABLE notes (id INT);".toList] ∧
    ¬Follows keeping fresh.effect [(.migrate (some (singleDirectory crlfFile)), .ok ())] s.committed.effect := by
  have ran : Ran keeping fresh (fun _ _ => True) ([] ++ [(.migrate (some (singleDirectory crlfFile)), .ok ())])
      ⟨⟨["CREATE TABLE notes (id INT);".toList], some notesHistory⟩, none⟩ :=
    .next .start trivial (run_single rfl rfl)
  refine ⟨_, ran, rfl, rfl, fun follows => ?_⟩
  rcases follows_single follows with ⟨done, rest, hwork, hdone, hok⟩
  obtain rfl := hok rfl
  rw [List.append_nil, pending, sorted_single rfl] at hwork
  have hpending : ([crlfFile].filter fun file => decide (file.stem ∉ fresh.effect.inEffect)) = [crlfFile] := rfl
  rw [← hwork, hpending] at hdone
  have hwhole : [crlfFile].foldlM (Effect.apply keeping) fresh.effect =
      some ⟨["CREATE TABLE notes (id INT);".toList, "DROP TABLE old;".toList], ["0001_notes"]⟩ := rfl
  cases hwhole.symm.trans hdone

end Djangors.Migrations
