import Djangors.Lib.Finmap
import Djangors.Lib.Caching
import Djangors.Lib.TextCode
import Djangors.Orm.QuerySet

/-! # Query cache

`djangors-orm/src/query_cache.rs`, `QuerySet::cached_all`, and the write paths with their calls of
`invalidate_table`: those of `QuerySet`, and `save`, `update` and `delete` as the derive macro writes
them out (`djangors-macros/src/model.rs`). The database is given by what it does with a statement. -/

namespace Djangors.Orm
open Db Sql

/-! ## Debug texts -/

def shortEscape : Char → Option Char
  | '\x00' => some '0'
  | '\t' => some 't'
  | '\r' => some 'r'
  | '\n' => some 'n'
  | '"' => some '"'
  | '\\' => some '\\'
  | _ => none

/-- A character in the `Debug` text of a string. -/
def escapeDebug [Fmt] (c : Char) : List Char :=
  match shortEscape c with
  | some e => ['\\', e]
  | none => if Fmt.printable c then [c] else ['\\', 'u', '{'] ++ (Nat.toDigits 16 c.toNat ++ ['}'])

mutual

/-- `format!("{v:?}")` -/
def Value.debug [Fmt] : Value → List Char
  | .i64 v => ['I', '6', '4', '('] ++ ((toString v).toList ++ [')'])
  | .f64 v => ['F', '6', '4', '('] ++ ((Fmt.f64Debug v).toList ++ [')'])
  | .text v => ['T', 'e', 'x', 't', '(', '"'] ++ (v.toList.flatMap escapeDebug ++ ['"'] ++ [')'])
  | .bool v => ['B', 'o', 'o', 'l', '('] ++ ((toString v).toList ++ [')'])
  | .dateTime v => ['D', 'a', 't', 'e', 'T', 'i', 'm', 'e', '('] ++ ((Fmt.dateTimeDebug v).toList ++ [')'])
  | .null => ['N', 'u', 'l', 'l']
  | .list [] => ['L', 'i', 's', 't', '(', '['] ++ ([] ++ [']'] ++ [')'])
  | .list (v :: vs) => ['L', 'i', 's', 't', '(', '['] ++ (v.debug ++ Value.debugTail vs ++ [']'] ++ [')'])

def Value.debugTail [Fmt] : List Value → List Char
  | [] => []
  | v :: vs => ([',', ' '] ++ v.debug) ++ Value.debugTail vs

end

/-! ## The store -/

/-- `find_key` -/
def findKey [Fmt] (table sql : String) (params : List Value) : String :=
  String.ofList (table.toList ++ '\x00' :: (sql.toList ++ '\x00' :: TextCode.sepBy [','] Value.debug params))

/-- A cached result; times are nanoseconds of the monotonic clock. -/
abbrev CacheEntry (ι : Type) := ReadThrough.Timed (List ι)

abbrev CacheEntries (ι : Type) := Finmap fun _ : String => CacheEntry ι

structure CacheStore (ι : Type) where
  entries : CacheEntries ι
  maxEntries : Nat

/-- The key that iterating over the `HashMap` yields first, which is not specified. -/
structure HashOrder (ι : Type) where
  first : CacheEntries ι → Option String
  first_mem : ∀ s k, first s = some k → k ∈ s

/-- A later time than this is not an `Instant`: the seconds are an `i64`. -/
def instantLimit : Nat := 2 ^ 63 * 10 ^ 9

namespace CacheStore
variable {ι : Type}

/-- One turn of the loop of `evict`. -/
def evictOne (order : HashOrder ι) (entries : CacheEntries ι) : CacheEntries ι :=
  match order.first entries with
  | some key => entries.erase key
  | none => entries

/-- `evict`: each turn of the loop removes one entry. -/
def evict (order : HashOrder ι) (entries : CacheEntries ι) (target : Nat) : CacheEntries ι :=
  (evictOne order)^[entries.keys.card - target] entries

/-- `set_max_cache_entries` -/
def setMaxCacheEntries (order : HashOrder ι) (s : CacheStore ι) (n : Nat) : CacheStore ι :=
  { entries := if s.entries.keys.card > n then evict order s.entries n else s.entries, maxEntries := n }

/-- `key.starts_with(&format!("{table_name}\u{0}"))` -/
def ofTable (table key : String) : Bool := (table.toList ++ ['\x00']).isPrefixOf key.toList

/-- `invalidate_table` -/
def invalidateTable (s : CacheStore ι) (table : String) : CacheStore ι :=
  { s with entries := s.entries.filter fun e => !ofTable table e.1 }

/-- `get_cached`; the entries of one table hold rows of one model, so the downcast succeeds. -/
def getCached (s : CacheStore ι) (now : Nat) (key : String) : Option (List ι) :=
  match s.entries.lookup key with
  | none => none
  | some entry => if entry.live now then some entry.value else none

/-- `put_cached`, with the expiry that `now() + t` gives. -/
def putCached (order : HashOrder ι) (s : CacheStore ι) (key : String) (entry : CacheEntry ι) : CacheStore ι :=
  let entries :=
    if key ∉ s.entries ∧ s.maxEntries ≤ s.entries.keys.card then evict order s.entries (s.maxEntries - 1)
    else s.entries
  { s with entries := entries.insert key entry }

end CacheStore

/-! ## The database -/

/-- What a statement that writes returns. -/
structure WriteResult where
  affected : Nat
  returned : List (Row Cell)

/-- A database in states `σ` and the decoding of its rows to instances `ι` of the model. A `SELECT` does
    not change the state; any other statement may, also outside the table of the model. -/
structure Engine (σ ι : Type) where
  dialect : Dialect
  inTransaction : Bool
  query : σ → String → List BindValue → Except OrmError (List (Row Cell))
  write : σ → String → List BindValue → σ × Except OrmError WriteResult
  fromRow : Row Cell → Except OrmError ι
  pkOf : Row Cell → Except OrmError Int

/-- A statement that fails, or affects no row, leaves the database as it was. -/
structure Engine.Atomic {σ ι : Type} (E : Engine σ ι) : Prop where
  error : ∀ db sql binds e, (E.write db sql binds).2 = .error e → (E.write db sql binds).1 = db
  zero : ∀ db sql binds r, (E.write db sql binds).2 = .ok r → r.affected = 0 → (E.write db sql binds).1 = db

/-! ## Reading -/

section Read
variable [Fmt] {σ ι : Type} {m : ModelMeta} (E : Engine σ ι)

/-- The text and parameters of the `SELECT` of a query set. -/
def QuerySet.sql (qs : QuerySet m) (d : Dialect) : String := (qs.select d).text d

def QuerySet.params (qs : QuerySet m) (d : Dialect) : List Value := (qs.select d).params

def QuerySet.key (qs : QuerySet m) (d : Dialect) : String := findKey m.tableName (qs.sql d) (qs.params d)

/-- Sends a `SELECT` and decodes its rows. -/
def Engine.fetchAll (db : σ) (sql : String) (params : List Value) : Except OrmError (List ι) := do
  let rows ← E.query db sql (params.map Value.toBind)
  rows.mapM E.fromRow

/-- `QuerySet::all` -/
def Engine.all (db : σ) (qs : QuerySet m) : Except OrmError (List ι) := do
  qs.checkForUpdate E.dialect E.inTransaction
  E.fetchAll db (qs.sql E.dialect) (qs.params E.dialect)

def liftErr {α : Type} : Except OrmError α → Except Stop α := Except.mapError .err

/-- The state of a process and its database: `clock` is the last time that was read. -/
structure CacheState (σ ι : Type) where
  db : σ
  store : CacheStore ι
  clock : Nat

/-- `QuerySet::cached_all`. It looks the query up at `now`, and stores the result at `now'`; adding a
    time to live that no `Instant` holds panics. -/
def cachedAll (order : HashOrder ι) (s : CacheState σ ι) (qs : QuerySet m) (now now' : Nat) :
    CacheState σ ι × Except Stop (List ι) :=
  match qs.checkForUpdate E.dialect E.inTransaction with
  | .error e => ({ s with clock := now }, .error (.err e))
  | .ok () =>
    match s.store.getCached now (qs.key E.dialect) with
    | some rows => ({ s with clock := now }, .ok rows)
    | none =>
      match E.fetchAll s.db (qs.sql E.dialect) (qs.params E.dialect) with
      | .error e => ({ s with clock := now }, .error (.err e))
      | .ok results =>
        match qs.cacheTtl with
        | none => ({ s with clock := now }, .ok results)
        | some ttl =>
          if now' + ttl < instantLimit then
            ({ s with store := s.store.putCached order (qs.key E.dialect) ⟨results, some (now' + ttl)⟩, clock := now' },
              .ok results)
          else ({ s with clock := now' }, .error .panic)

end Read

/-! ## Writing -/

/-- A write of the ORM to the table of the model. The derived `save` and `update` hold the columns and
    values that the macro lists. -/
inductive WriteOp (m : ModelMeta) where
  | insertRaw (values : List (String × Value))
  | bulkCreate (items : List (List (String × Value)))
  | update (qs : QuerySet m) (sets : List (String × SetExpr))
  | delete (qs : QuerySet m)
  | deleteByPk (pk : Int)
  | save (cols : List (String × BindValue))
  | updateRow (cols : List (String × BindValue)) (pkColumn : String) (pk : BindValue)
  | deleteRow (pkColumn : String) (pk : BindValue)

def WriteOp.isUpdate {m : ModelMeta} : WriteOp m → Bool
  | .update _ _ => true
  | _ => false

/-- The writes that decode rows their statement returns. -/
def WriteOp.readsBack {m : ModelMeta} : WriteOp m → Bool
  | .insertRaw _ | .bulkCreate _ | .save _ => true
  | _ => false

/-- How a write ended: the database, its result, and whether it called `invalidate_table`. -/
structure Written (σ : Type) where
  db : σ
  result : Except Stop Unit
  invalidated : Bool

def quotedNames (cols : List String) : String := ", ".intercalate (cols.map fun c => "\"" ++ c ++ "\"")

/-- The statement of the derived `save`. -/
def saveText (d : Dialect) (table : String) (cols : List String) : String :=
  "INSERT INTO " ++ table ++ " (" ++ quotedNames cols ++ ") VALUES (" ++
    ", ".intercalate ((List.range' 1 cols.length).map d.placeholder) ++ ") RETURNING *"

/-- The statement of the derived `update`. -/
def updateRowText (d : Dialect) (table : String) (cols : List String) (pkColumn : String) : String :=
  let sets := (cols.zipIdx 1).map fun (c, i) => "\"" ++ c ++ "\" = " ++ d.placeholder i
  "UPDATE " ++ table ++ " SET " ++ ", ".intercalate sets ++ " WHERE \"" ++ pkColumn ++ "\" = " ++
    d.placeholder (cols.length + 1)

/-- The statement of the derived `delete`. -/
def deleteRowText (d : Dialect) (table pkColumn : String) : String :=
  "DELETE FROM " ++ table ++ " WHERE \"" ++ pkColumn ++ "\" = " ++ d.placeholder 1

def InsertRows.binds : InsertRows → List BindValue
  | .defaultValues => []
  | .values _ rows => rows.flatten

section Write
variable [Fmt] {σ ι : Type} {m : ModelMeta} (E : Engine σ ι)

/-- Sends a statement and reads what it returns; the cache is invalidated when that succeeds. -/
def Engine.perform (db : σ) (sql : String) (binds : List BindValue) (read : WriteResult → Except OrmError Unit) : Written σ :=
  match E.write db sql binds with
  | (db', .error e) => ⟨db', .error (.err e), false⟩
  | (db', .ok r) =>
    match read r with
    | .error e => ⟨db', .error (.err e), false⟩
    | .ok () => ⟨db', .ok (), true⟩

/-- `fetch_one` and the decoding of its row. -/
def readOne {α : Type} (decode : Row Cell → Except OrmError α) (r : WriteResult) : Except OrmError Unit :=
  match r.returned with
  | [] => .error (.query "no rows returned by a query that expected to return at least one row")
  | row :: _ => (decode row).map fun _ => ()

def readAll {α : Type} (decode : Row Cell → Except OrmError α) (r : WriteResult) : Except OrmError Unit :=
  (r.returned.mapM decode).map fun _ => ()

/-- The derived `update` and `delete` ask that a row was affected. -/
def readAffected (model : String) (r : WriteResult) : Except OrmError Unit :=
  if r.affected = 0 then .error (.notFound model) else .ok ()

def WriteOp.run (db : σ) : WriteOp m → Written σ
  | .insertRaw values =>
    match QuerySet.insertRaw m values with
    | .error e => ⟨db, .error e, false⟩
    | .ok s => E.perform db (s.text E.dialect) s.source.binds (readOne E.pkOf)
  | .bulkCreate items =>
    match QuerySet.bulkCreate m items with
    | .error e => ⟨db, .error e, false⟩
    | .ok none => ⟨db, .ok (), false⟩
    | .ok (some s) => E.perform db (s.text E.dialect) s.source.binds (readAll E.pkOf)
  | .update qs sets =>
    match qs.update E.dialect sets with
    | .error e => ⟨db, .error (.err e), false⟩
    -- the only write path that leaves the cache alone
    | .ok s => { E.perform db (s.text E.dialect) s.binds (fun _ => .ok ()) with invalidated := false }
  | .delete qs => E.perform db ((qs.delete E.dialect).text E.dialect) (qs.delete E.dialect).binds fun _ => .ok ()
  | .deleteByPk pk =>
    match QuerySet.deleteByPk m pk with
    | .error e => ⟨db, .error e, false⟩
    | .ok s => E.perform db (s.text E.dialect) s.binds fun _ => .ok ()
  | .save cols =>
    E.perform db (saveText E.dialect m.tableName (cols.map (·.1))) (cols.map (·.2)) (readOne E.fromRow)
  | .updateRow cols pkColumn pk =>
    E.perform db (updateRowText E.dialect m.tableName (cols.map (·.1)) pkColumn) (cols.map (·.2) ++ [pk])
      (readAffected m.structName)
  | .deleteRow pkColumn pk =>
    E.perform db (deleteRowText E.dialect m.tableName pkColumn) [pk] (readAffected m.structName)

/-- A write and its effect on the cache. -/
def CacheState.write (s : CacheState σ ι) (op : WriteOp m) (now : Nat) : CacheState σ ι :=
  let w := op.run E s.db
  { db := w.db, store := if w.invalidated then s.store.invalidateTable m.tableName else s.store, clock := now }

end Write

/-! ## A read and a write at once -/

/-- Where a `cached_all` stands: before its lookup, after a miss, with its rows fetched, or at its end. -/
inductive ReadPhase (ι : Type) where
  | start
  | missed
  | fetched (rows : List ι)
  | ended (result : Except Stop (List ι))

/-- The atomic steps of a `cached_all` and of a write. -/
inductive RaceStep where
  | lookup
  | fetch
  | put
  | execute
  | invalidate
deriving DecidableEq, Repr

/-- A `cached_all` and a write under way on one database and cache; `writer` is how the statement of
    the write ended. -/
structure Race (σ ι : Type) where
  db : σ
  store : CacheStore ι
  reader : ReadPhase ι
  writer : Option (Written σ)

section Race
variable [Fmt] {σ ι : Type} {m : ModelMeta} (E : Engine σ ι) (order : HashOrder ι) (qs : QuerySet m)

def lookupPhase (store : CacheStore ι) (now : Nat) : ReadPhase ι :=
  match qs.checkForUpdate E.dialect E.inTransaction with
  | .error e => .ended (.error (.err e))
  | .ok () =>
    match store.getCached now (qs.key E.dialect) with
    | some rows => .ended (.ok rows)
    | none => .missed

def fetchPhase (db : σ) : ReadPhase ι → ReadPhase ι
  | .missed =>
    match E.fetchAll db (qs.sql E.dialect) (qs.params E.dialect) with
    | .error e => .ended (.error (.err e))
    | .ok rows => .fetched rows
  | phase => phase

/-- Stores the fetched rows when the query set has a time to live. -/
def putPhase (store : CacheStore ι) (now : Nat) : ReadPhase ι → CacheStore ι × ReadPhase ι
  | .fetched rows =>
    match qs.cacheTtl with
    | none => (store, .ended (.ok rows))
    | some ttl =>
      if now + ttl < instantLimit then
        (store.putCached order (qs.key E.dialect) ⟨rows, some (now + ttl)⟩, .ended (.ok rows))
      else (store, .ended (.error .panic))
  | phase => (store, phase)

def Race.step (op : WriteOp m) (now : Nat) (s : Race σ ι) : RaceStep → Race σ ι
  | .lookup => { s with reader := lookupPhase E qs s.store now }
  | .fetch => { s with reader := fetchPhase E qs s.db s.reader }
  | .put =>
    let (store, reader) := putPhase E order qs s.store now s.reader
    { s with store, reader }
  | .execute =>
    let w := op.run E s.db
    { s with db := w.db, writer := some w }
  | .invalidate =>
    match s.writer with
    | none => s
    | some w => { s with store := if w.invalidated then s.store.invalidateTable m.tableName else s.store }

/-- Runs a schedule of steps, each at its time. -/
def Race.run (op : WriteOp m) (times : RaceStep → Nat) (s : Race σ ι) (schedule : List RaceStep) : Race σ ι :=
  schedule.foldl (fun s step => s.step E order qs op (times step) step) s

end Race

end Djangors.Orm

/-! ## The query cache of a process

One store holds the results of the query sets of all models, on all `Database` handles of a process
(`djangors-orm/src/query_cache.rs`). Its values are boxed, and read back as the type that asks for them. -/

namespace Djangors.Orm
open Db

/-- A `cached_all` of the query set of a model on a handle; `type` is the type of its instances. -/
structure CachedCall (δ τ : Type) where
  database : δ
  type : τ
  model : ModelMeta
  query : QuerySet model

/-- A boxed `Vec<T>`, and the call that stored it. -/
structure Boxed (δ τ ρ : Type) where
  call : CachedCall δ τ
  rows : List ρ

/-- The uses of the store, each under its lock. A `cached_all` is a lookup and, after a miss and a fetch, a put: those
    of several calls may come in any order. -/
inductive StoreUse (δ τ ρ : Type) where
  | lookup (call : CachedCall δ τ) (now : Nat)
  | put (call : CachedCall δ τ) (rows : List ρ) (now : Nat)
  | invalidate (table : String)
  | resize (n : Nat)

section Uses
variable [Fmt] {δ τ ρ : Type} (dialect : δ → Dialect)

namespace CachedCall
variable (call : CachedCall δ τ)

def table : String := call.model.tableName

def sql : String := call.query.sql (dialect call.database)

def params : List Value := call.query.params (dialect call.database)

def key : String := findKey call.table (call.sql dialect) (call.params dialect)

/-- `get_cached::<T>`: a box is read when its downcast succeeds. -/
def lookup [DecidableEq τ] (store : CacheStore (Boxed δ τ ρ)) (now : Nat) : Option (Boxed δ τ ρ) :=
  (store.getCached now (call.key dialect)).bind fun value => value.head?.filter (·.call.type = call.type)

/-- `put_cached::<T>`, which `cached_all` calls when the query set has a time to live. -/
def put (order : HashOrder (Boxed δ τ ρ)) (store : CacheStore (Boxed δ τ ρ)) (rows : List ρ) (now : Nat) :
    CacheStore (Boxed δ τ ρ) :=
  match call.query.cacheTtl with
  | none => store
  | some ttl =>
    if now + ttl < instantLimit then store.putCached order (call.key dialect) ⟨[⟨call, rows⟩], some (now + ttl)⟩
    else store

end CachedCall

variable (order : HashOrder (Boxed δ τ ρ))

def StoreUse.apply (store : CacheStore (Boxed δ τ ρ)) : StoreUse δ τ ρ → CacheStore (Boxed δ τ ρ)
  | .lookup _ _ => store
  | .put call rows now => call.put dialect order store rows now
  | .invalidate table => store.invalidateTable table
  | .resize n => store.setMaxCacheEntries order n

/-- The store after its uses so far, from an empty one. -/
def storeAfter (maxEntries : Nat) (uses : List (StoreUse δ τ ρ)) : CacheStore (Boxed δ τ ρ) :=
  uses.foldl (StoreUse.apply dialect order) ⟨∅, maxEntries⟩

end Uses

end Djangors.Orm
