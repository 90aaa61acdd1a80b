import BancuhDns.Lib.KeyValue
import BancuhDns.Text

/-!
# The domain stores

A `BancuhDns.DomainStore` is a RocksDB database of domains and wildcards. What is
written is one key, the pattern with a trailing dot; a name is looked up under
one key for itself and one for each wildcard above it, the longest first
(`BancuhDns.keys`), and the first key present decides.

The database itself is a parameter: any `KeyValue` store whose keys and values
are texts.
-/

namespace BancuhDns

/-- An error of RocksDB. -/
structure RocksError where
  /-- What the database reports. -/
  message : Text
  deriving DecidableEq

/-- A RocksDB database with states `σ`. The values are the texts written, so
`String::from_utf8` of a value read gives the text back. -/
abbrev RocksDB (σ : Type) := KeyValue σ Text Text RocksError

/-- An error of a store. -/
inductive DBError where
  /-- The database failed. -/
  | rocksDB (e : RocksError)
  deriving DecidableEq

/-- `normalize_name`: a name ends with a dot. -/
def normalizeName (name : Text) : Text := if endsWith '.' name then name else name ++ ['.']

/-- A store of domains; the database is gone once the store is dropped. -/
structure DomainStore (σ : Type) where
  /-- The database. -/
  db : Option σ

namespace DomainStore

variable {σ : Type}

/-- `DomainStore::create`, on what opening a database under a fresh path gives. -/
def create (opened : Except RocksError σ) : Except DBError (DomainStore σ) :=
  match opened with
  | .ok db => .ok ⟨some db⟩
  | .error e => .error (.rocksDB e)

/-- One write of a store: the key is normalised by the caller. -/
def write (kv : RocksDB σ) (self : DomainStore σ) (key value : Text) :
    DomainStore σ × Except DBError Unit :=
  match self.db with
  -- nothing is written once the database is gone, and nobody is told
  | none => (self, .ok ())
  | some db =>
    match kv.put db key value with
    | (db, .ok ()) => (⟨some db⟩, .ok ())
    | (db, .error e) => (⟨some db⟩, .error (.rocksDB e))

/-- `DomainStore::put`. -/
def put (kv : RocksDB σ) (self : DomainStore σ) (domain : Text) :
    DomainStore σ × Except DBError Unit :=
  self.write kv (normalizeName domain) "true".toList

/-- `DomainStore::put_alias`. -/
def putAlias (kv : RocksDB σ) (self : DomainStore σ) (domain aliasName : Text) :
    DomainStore σ × Except DBError Unit :=
  self.write kv (normalizeName domain) (normalizeName aliasName)

end DomainStore

/-- The parts of a name: what stands between its dots, empty parts left out. -/
def parts (domain : Text) : List Text := (domain.splitOn '.').filter (· ≠ [])

/-- **The keys a name is looked up under**: itself, and the wildcard over each of
its proper suffixes, the longest suffix first. -/
def keys (domain : Text) : List Text :=
  domain :: (List.range' 1 ((parts domain).length - 1)).map fun i =>
    ['*', '.'] ++ List.intercalate ['.'] ((parts domain).drop i) ++ ['.']

namespace DomainStore

variable {σ : Type}

/-- `DomainStore::get`. -/
def get (kv : RocksDB σ) (self : DomainStore σ) (domain : Text) :
    Except DBError (Option Text) :=
  match self.db with
  | none => .ok none
  | some db =>
    match kv.getFirst db (keys domain) with
    | .ok value => .ok value
    | .error e => .error (.rocksDB e)

/-- `DomainStore::contains`. -/
def contains (kv : RocksDB σ) (self : DomainStore σ) (domain : Text) : Except DBError Bool :=
  (self.get kv domain).map Option.isSome

end DomainStore

/-- The three stores of a compiled configuration. -/
structure AdblockDB (σ : Type) where
  /-- The blacklist. -/
  blacklist : DomainStore σ
  /-- The whitelist. -/
  whitelist : DomainStore σ
  /-- The rewrites. -/
  rewrites : DomainStore σ

/-- What opening three databases under fresh paths gives, in order. -/
structure Opened (σ : Type) where
  /-- The database of the blacklist. -/
  blacklist : Except RocksError σ
  /-- The database of the whitelist. -/
  whitelist : Except RocksError σ
  /-- The database of the rewrites. -/
  rewrites : Except RocksError σ

/-- `AdblockDB::create`. -/
def AdblockDB.create {σ : Type} (opened : Opened σ) : Except DBError (AdblockDB σ) := do
  let blacklist ← DomainStore.create opened.blacklist
  let whitelist ← DomainStore.create opened.whitelist
  let rewrites ← DomainStore.create opened.rewrites
  return { blacklist := blacklist, whitelist := whitelist, rewrites := rewrites }

/-! ### Stores and maps -/

namespace DomainStore

variable {σ : Type} {kv : RocksDB σ}

/-- A store whose database is there and reads as the map `m`. -/
def Holds (kv : RocksDB σ) (self : DomainStore σ) (m : Text → Option Text) : Prop :=
  ∃ db, self.db = some db ∧ kv.Holds db m

/-- A store with nothing in it. -/
def Empty (kv : RocksDB σ) (self : DomainStore σ) : Prop := self.Holds kv fun _ => none

/-- A run of writes into a store. -/
def writeAll (kv : RocksDB σ) (self : DomainStore σ) (ws : List (Text × Text)) : DomainStore σ :=
  ws.foldl (fun s w => (s.write kv w.1 w.2).1) self

theorem write_some (db : σ) (key value : Text) :
    ((⟨some db⟩ : DomainStore σ).write kv key value).1 = ⟨some (kv.put db key value).1⟩ := by
  rw [write]
  rcases hput : kv.put db key value with ⟨db', _ | _⟩ <;> simp [hput]

theorem writeAll_some (db : σ) (ws : List (Text × Text)) :
    (⟨some db⟩ : DomainStore σ).writeAll kv ws = ⟨some (kv.putAll db ws)⟩ := by
  induction ws generalizing db with
  | nil => rfl
  | cons w ws ih =>
    have hstep := ih (kv.put db w.1 w.2).1
    rw [writeAll, List.foldl_cons, write_some]
    exact hstep

/-- **What a run of writes leaves**: a key holds its last write. -/
theorem writeAll_holds (hkv : kv.LastWriteWins) {self : DomainStore σ} (h : self.Empty kv)
    (ws : List (Text × Text)) : (self.writeAll kv ws).Holds kv (KeyValue.lastWrite ws) := by
  obtain ⟨db, hdb, hempty⟩ := h
  have hself : self = ⟨some db⟩ := by rw [← hdb]
  refine ⟨kv.putAll db ws, ?_, KeyValue.putAll_holds_of_empty hkv hempty ws⟩
  rw [hself, writeAll_some]

/-- A lookup searches the keys of the name. -/
theorem get_eq {self : DomainStore σ} {m : Text → Option Text} (h : self.Holds kv m)
    (domain : Text) : self.get kv domain = .ok ((keys domain).findSome? m) := by
  obtain ⟨db, hdb, hm⟩ := h
  rw [get, hdb]
  simp only [KeyValue.getFirst_eq hm]

theorem contains_eq {self : DomainStore σ} {m : Text → Option Text} (h : self.Holds kv m)
    (domain : Text) : self.contains kv domain = .ok ((keys domain).findSome? m).isSome := by
  rw [contains, get_eq h]
  rfl

end DomainStore

/-- The three stores with nothing in them. -/
structure AdblockDB.Empty {σ : Type} (kv : RocksDB σ) (db : AdblockDB σ) : Prop where
  /-- No blacklist entry. -/
  blacklist : db.blacklist.Empty kv
  /-- No whitelist entry. -/
  whitelist : db.whitelist.Empty kv
  /-- No rewrite. -/
  rewrites : db.rewrites.Empty kv

/-- Three stores of association lists, with nothing in them. -/
def AdblockDB.assoc : AdblockDB (List (Text × Text)) := ⟨⟨some []⟩, ⟨some []⟩, ⟨some []⟩⟩

theorem AdblockDB.assoc_empty : AdblockDB.assoc.Empty (KeyValue.assoc Text Text RocksError) where
  blacklist := ⟨[], rfl, KeyValue.assoc_empty⟩
  whitelist := ⟨[], rfl, KeyValue.assoc_empty⟩
  rewrites := ⟨[], rfl, KeyValue.assoc_empty⟩

end BancuhDns
