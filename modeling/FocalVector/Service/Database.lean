import FocalVector.Persistence.Reopening

/-!
Contract: the collections of a database.

A database is a directory with one directory for each collection and one for the backups. It
opens every directory that has a valid name and metadata, and refuses to open when one of them
does not open. Creating a collection opens a directory that has none yet; restoring one copies
a backup to a new directory and opens that.

Owns: opening a database, creating and restoring collections, what a later opening discovers,
and which failed calls it discovers.

Does not own: the locks and the background flusher of a collection, and what its files hold.
-/

namespace FocalVector.Service

open FocalVector.Foundation FocalVector.Engine FocalVector.Persistence

/-! ## The directories of a database -/

/-- Directories by name, in the order of their names. -/
abbrev Folders := Std.ExtTreeMap String Directory

/-- The directories of a database. The temporary directories of a copy are among the first. -/
structure Root where
  directories : Folders
  backups : Folders

structure DatabaseConfig where
  durability : Durability
  /-- In nanoseconds. -/
  flushInterval : Nat
  dirtyPointThreshold : Nat

/-- The collections in memory, over the directory with the path `root`. -/
structure Database (backend : IndexBackend) where
  root : String
  config : DatabaseConfig
  collections : Std.ExtTreeMap String (PersistentCollection backend)

def validateDatabaseConfig (config : DatabaseConfig) : Result Unit :=
  if config.flushInterval = 0 ∨ config.dirtyPointThreshold = 0 then
    .error (.invalidConfig "flush interval and dirty point threshold must be positive")
  else
    .ok ()

/-- ASCII letters, digits, `-` and `_`. -/
def isNameByte (byte : UInt8) : Bool :=
  (97 ≤ byte ∧ byte ≤ 122) ∨ (65 ≤ byte ∧ byte ≤ 90) ∨ (48 ≤ byte ∧ byte ≤ 57) ∨
    byte = 45 ∨ byte = 95

def validateCollectionName (name : String) : Result Unit :=
  if name.isEmpty ∨ 64 < name.utf8ByteSize ∨ (utf8 name).all isNameByte = false then
    .error (.invalidQuery "collection names must be 1-64 ASCII letters, digits, '-' or '_'")
  else
    .ok ()

/-! ## Opening -/

def Root.directory (root : Root) (name : String) : Directory :=
  (root.directories[name]?).getD fun _ => none

def Root.put (root : Root) (name : String) (directory : Directory) : Root :=
  { root with directories := root.directories.insert name directory }

/-- The checks of `start_background_flush`. -/
def startBackgroundFlush (checkInterval dirtyPointThreshold : Nat) : Result Unit :=
  if dirtyPointThreshold = 0 then
    .error (.invalidConfig "background flush threshold must be greater than zero")
  else if checkInterval = 0 then
    .error (.invalidConfig "background flush interval must be greater than zero")
  else
    .ok ()

/-- `PersistentCollection::persisted_config`. -/
def persistedConfig (directory : Directory) : Result CollectionConfig :=
  match directory metaName with
  | none => .error (.io "no such file")
  | some bytes => decodeMetadata bytes

namespace Database

section

variable {backend : IndexBackend} (arith : FloatArithmetic) (database : Database backend)

/-- `open_managed`: the directory is made when it is missing. -/
def openManaged (name : String) (config : CollectionConfig) (root : Root) :
    Root × Result (PersistentCollection backend) :=
  let (directory, opened) :=
    (openCollection arith backend config database.config.durability).run (root.directory name)
  (root.put name directory, do
    let collection ← opened
    startBackgroundFlush database.config.flushInterval database.config.dirtyPointThreshold
    return collection)

def insert (name : String) (collection : PersistentCollection backend) : Database backend :=
  { database with collections := database.collections.insert name collection }

/-- The loop of `discover`. -/
def openAll (database : Database backend) : List String → Root → Root × Result (Database backend)
  | [], root => (root, .ok database)
  | name :: names, root =>
    match persistedConfig (root.directory name) with
    | .error error => (root, .error error)
    | .ok config =>
      match database.openManaged arith name config root with
      | (after, .error error) => (after, .error error)
      | (after, .ok collection) => openAll (database.insert name collection) names after

end

end Database

/-- The directories that `discover` opens. -/
def Root.discoverable (root : Root) : List String :=
  (root.directories.toList.filter fun (name, directory) =>
    (validateCollectionName name).isOk ∧ (directory metaName).isSome).map Prod.fst

namespace Database

section

variable {backend : IndexBackend} (arith : FloatArithmetic) (database : Database backend)

def discover (root : Root) : Root × Result (Database backend) :=
  database.openAll arith root.discoverable root

def createCollection (name : String) (collectionConfig : CollectionConfig) (root : Root) :
    Root × Result (Database backend) :=
  match validateCollectionName name with
  | .error error => (root, .error error)
  | .ok () =>
    if name ∈ database.collections then
      (root, .error (.alreadyExists s!"collection {name}"))
    else
      match database.openManaged arith name collectionConfig root with
      | (after, .error error) => (after, .error error)
      | (after, .ok collection) => (after, .ok (database.insert name collection))

end

end Database

/-- `Database::open`; the directories of the database exist then. -/
def openDatabase (arith : FloatArithmetic) (backend : IndexBackend) (path : String)
    (config : DatabaseConfig) (root : Root) : Root × Result (Database backend) :=
  match validateDatabaseConfig config with
  | .error error => (root, .error error)
  | .ok () => Database.discover arith ⟨path, config, ∅⟩ root

/-! ## Restoring -/

/-- The files that `copy_collection_directory` copies, read from the source. -/
def copyFiles : Fs Directory := do
  let metadata ← readFile metaName
  let wal ← readFile walName
  let copied : Directory := (Disk.write (fun _ => none) metaName metadata).write walName wal
  match ← readManifest with
  | none => return copied
  | some manifest =>
    let withSegments ← manifest.segments.foldlM
      (fun (copied : Directory) name => return copied.write name (← readFile name)) copied
    let bytes ← readFile manifestName
    return withSegments.write manifestName bytes

def temporaryDirectoryName (name : String) (process nonce : Nat) : String :=
  s!".{name}.tmp-{process}-{nonce}"

/-- `copy_collection_directory`, to a directory of the database. The temporary directory is
renamed at the end, or removed when the copy failed. -/
def copyCollectionDirectory (path : String) (process nonce : Nat) (source : Directory)
    (name : String) (root : Root) : Root × Result Unit :=
  if name ∈ root.directories then
    (root, .error (.alreadyExists s!"backup destination {path}/{name}"))
  else
    let temporary := temporaryDirectoryName name process nonce
    if temporary ∈ root.directories then
      (root, .error (.io "file exists"))
    else
      match (copyFiles.run source).2 with
      | .error error =>
        let made := root.put temporary fun _ => none
        ({ made with directories := made.directories.erase temporary }, .error error)
      | .ok copied =>
        let made := root.put temporary copied
        ({ made with directories := (made.directories.erase temporary).insert name copied },
          .ok ())

/-- `PersistentCollection::restore_backup`. -/
def restoreBackup (path : String) (process nonce : Nat) (source : Directory) (name : String)
    (root : Root) : Root × Result CollectionConfig :=
  match persistedConfig source with
  | .error error => (root, .error error)
  | .ok config =>
    match copyCollectionDirectory path process nonce source name root with
    | (after, .error error) => (after, .error error)
    | (after, .ok ()) => (after, .ok config)

namespace Database

section

variable {backend : IndexBackend} (arith : FloatArithmetic) (database : Database backend)

/-- `open_managed` on a restored directory, which is removed when it does not open. -/
def openRestored (name : String) (config : CollectionConfig) (root : Root) :
    Root × Result (Database backend) :=
  match database.openManaged arith name config root with
  | (after, .error error) =>
    ({ after with directories := after.directories.erase name }, .error error)
  | (after, .ok collection) => (after, .ok (database.insert name collection))

def restoreCollection (process nonce : Nat) (backupName collectionName : String) (root : Root) :
    Root × Result (Database backend) :=
  match validateCollectionName backupName, validateCollectionName collectionName with
  | .error error, _ => (root, .error error)
  | .ok (), .error error => (root, .error error)
  | .ok (), .ok () =>
    if collectionName ∈ database.collections then
      (root, .error (.alreadyExists s!"collection {collectionName}"))
    else
      match (root.backups[backupName]?).filter fun backup => (backup metaName).isSome with
      | none => (root, .error (.notFound s!"backup {backupName}"))
      | some source =>
        match restoreBackup database.root process nonce source collectionName root with
        | (after, .error error) => (after, .error error)
        | (after, .ok config) => database.openRestored arith collectionName config after

end

end Database

/-! ## Calls -/

/-- The calls that add a collection. The process and the time of a copy name its temporary
directory. -/
inductive CatalogCall where
  | create (name : String) (config : CollectionConfig)
  | restore (process nonce : Nat) (backupName collectionName : String)

namespace Database

section

variable {backend : IndexBackend} (arith : FloatArithmetic) (database : Database backend)

def call (root : Root) : CatalogCall → Root × Result (Database backend)
  | .create name config => database.createCollection arith name config root
  | .restore process nonce backupName collectionName =>
    database.restoreCollection arith process nonce backupName collectionName root

def perform (root : Root) (call : CatalogCall) : Root × Database backend × Result Unit :=
  match database.call arith root call with
  | (after, .ok changed) => (after, changed, .ok ())
  | (after, .error error) => (after, database, .error error)

def configs (name : String) : Option CollectionConfig :=
  (database.collections[name]?).map (·.inner.config)

/-- A later opening of the root succeeds and discovers the collections of the database. -/
def Recorded (root : Root) : Prop :=
  ∃ after reopened, openDatabase arith backend database.root database.config root =
    (after, .ok reopened) ∧ reopened.configs = database.configs

def WritesMetadata (root : Root) : CatalogCall → Prop
  | .create name _ => validateCollectionName name = .ok () ∧ name ∉ database.collections ∧
      root.directory name metaTemporaryName = none
  | .restore _ _ _ _ => False

end

end Database

/-! ## What an opening discovers -/

theorem mem_discoverable {root : Root} {name : String} :
    name ∈ root.discoverable ↔
      validateCollectionName name = .ok () ∧ (root.directory name metaName).isSome = true := by
  have valid : (validateCollectionName name).isOk = true ↔ validateCollectionName name = .ok () := by
    cases validateCollectionName name <;> simp [Except.isOk, Except.toBool]
  simp only [Root.discoverable, Root.directory, List.mem_map, List.mem_filter, decide_eq_true_eq,
    Prod.exists, exists_and_right, exists_eq_right, Std.ExtTreeMap.mem_toList_iff_getElem?_eq_some]
  cases root.directories[name]? <;> simp [valid]

theorem nodup_discoverable (root : Root) : root.discoverable.Nodup := by
  have keys : (root.directories.toList.map Prod.fst).Nodup := by
    rw [Std.ExtTreeMap.map_fst_toList_eq_keys]
    exact Std.ExtTreeMap.nodup_keys
  exact keys.sublist (List.filter_sublist.map _)

section Opening

variable {arith : FloatArithmetic} {backend : IndexBackend} {database opened : Database backend}
  {root after : Root}

variable {name : String} {directory : Directory}

theorem directory_put_same : (root.put name directory).directory name = directory := by
  simp [Root.put, Root.directory]

theorem directory_put_other {other : String} (differ : other ≠ name) :
    (root.put name directory).directory other = root.directory other := by
  simp [Root.put, Root.directory, Std.ExtTreeMap.getElem?_insert, differ.symm]

variable {config : CollectionConfig}

theorem openManaged_eq (valid : validateDatabaseConfig database.config = .ok ()) {next : Directory}
    {outcome : Result (PersistentCollection backend)}
    (runs : (openCollection arith backend config database.config.durability).run
      (root.directory name) = (next, outcome)) :
    database.openManaged arith name config root = (root.put name next, outcome) := by
  unfold validateDatabaseConfig at valid
  split at valid
  · cases valid
  next positive =>
    rw [not_or] at positive
    unfold Database.openManaged startBackgroundFlush
    rw [runs, if_neg positive.2, if_neg positive.1]
    cases outcome <;> rfl

theorem persistedConfig_eq_ok :
    persistedConfig directory = .ok config ↔ Configured directory config := by
  unfold persistedConfig Configured
  cases directory metaName <;> simp

variable (arith backend) in
/-- A directory that opens with the configuration in its metadata. -/
def Opens (durability : Durability) (directory : Directory) (config : CollectionConfig) : Prop :=
  Configured directory config ∧
    ∃ next store, (openCollection arith backend config durability).run directory = (next, .ok store)

theorem opens_of_opened {durability : Durability} {next : Directory} {store : PersistentCollection backend}
    (runs : (openCollection arith backend config durability).run directory = (next, .ok store)) :
    Opens arith backend durability next config :=
  ⟨configured_of_opened runs, next, store, openCollection_again runs⟩

theorem openAll_eq_ok (valid : validateDatabaseConfig database.config = .ok ())
    {names : List String} (distinct : names.Nodup)
    (runs : database.openAll arith names root = (after, .ok opened)) :
    (opened.root = database.root ∧ opened.config = database.config) ∧
      (∀ name ∈ names, ∃ config store, Configured (root.directory name) config ∧
        (openCollection arith backend config database.config.durability).run
          (root.directory name) = (after.directory name, .ok store) ∧
        opened.collections[name]? = some store) ∧
      ∀ name ∉ names, after.directory name = root.directory name ∧
        opened.collections[name]? = database.collections[name]? := by
  induction names generalizing database root with
  | nil =>
    cases runs
    exact ⟨⟨rfl, rfl⟩, nofun, fun _ _ => ⟨rfl, rfl⟩⟩
  | cons name names ih =>
    obtain ⟨missing, rest⟩ := List.nodup_cons.mp distinct
    unfold Database.openAll at runs
    split at runs
    · cases runs
    next config reads =>
    rcases opens : (openCollection arith backend config database.config.durability).run
      (root.directory name) with ⟨next, outcome⟩
    rw [openManaged_eq valid opens] at runs
    cases outcome with
    | error error => cases runs
    | ok store =>
      have stillValid : validateDatabaseConfig (database.insert name store).config = .ok () :=
        valid
      obtain ⟨same, others, kept⟩ := ih stillValid rest runs
      refine ⟨same, fun other member => ?_, fun other absent => ?_⟩
      · rcases List.mem_cons.mp member with rfl | inRest
        · obtain ⟨isNext, found⟩ := kept other missing
          rw [directory_put_same] at isNext
          refine ⟨config, store, persistedConfig_eq_ok.mp reads, by rw [isNext]; exact opens, ?_⟩
          rw [found]
          exact Std.ExtTreeMap.getElem?_insert_self
        · have differ : other ≠ name := fun isName => missing (isName ▸ inRest)
          have found := others other inRest
          rwa [directory_put_other differ] at found
      · obtain ⟨differ, absentRest⟩ := not_or.mp (mt List.mem_cons.mpr absent)
        obtain ⟨isKept, found⟩ := kept other absentRest
        rw [directory_put_other differ] at isKept
        refine ⟨isKept, found.trans ?_⟩
        simp [Database.insert, Std.ExtTreeMap.getElem?_insert, Ne.symm differ]

theorem openAll_succeeds (valid : validateDatabaseConfig database.config = .ok ())
    {names : List String} (distinct : names.Nodup)
    (each : ∀ name ∈ names, ∃ config,
      Opens arith backend database.config.durability (root.directory name) config) :
    ∃ after opened, database.openAll arith names root = (after, .ok opened) := by
  induction names generalizing database root with
  | nil => exact ⟨root, database, rfl⟩
  | cons name names ih =>
    obtain ⟨missing, rest⟩ := List.nodup_cons.mp distinct
    obtain ⟨⟨config, configured, next, store, opens⟩, others⟩ := List.forall_mem_cons.mp each
    unfold Database.openAll
    rw [persistedConfig_eq_ok.mpr configured]
    simp only
    rw [openManaged_eq valid opens]
    have stillValid : validateDatabaseConfig (database.insert name store).config = .ok () :=
      valid
    refine ih stillValid rest fun other member => ?_
    have differ : other ≠ name := fun isName => missing (isName ▸ member)
    rw [directory_put_other differ]
    exact others other member

theorem openDatabase_eq_ok {path : String} {config : DatabaseConfig}
    (opens : openDatabase arith backend path config root = (after, .ok opened)) :
    validateDatabaseConfig config = .ok () ∧ (opened.root = path ∧ opened.config = config) ∧
      (∀ name ∈ root.discoverable, ∃ stored, Configured (root.directory name) stored ∧
        opened.configs name = some stored ∧ ∃ store,
          (openCollection arith backend stored config.durability).run (root.directory name) =
            (after.directory name, .ok store)) ∧
      ∀ name ∉ root.discoverable, opened.configs name = none ∧
        after.directory name = root.directory name := by
  unfold openDatabase at opens
  split at opens
  · cases opens
  next valid =>
  have empty : validateDatabaseConfig (⟨path, config, ∅⟩ : Database backend).config = .ok () := valid
  obtain ⟨same, each, others⟩ := openAll_eq_ok empty (nodup_discoverable root) opens
  refine ⟨valid, same, fun name discovered => ?_, fun name absent => ?_⟩
  · obtain ⟨stored, store, configured, opensOne, found⟩ := each name discovered
    refine ⟨stored, configured, ?_, store, opensOne⟩
    rw [Database.configs, found]
    exact congrArg some (config_of_openCollection opensOne)
  · obtain ⟨kept, missing⟩ := others name absent
    rw [Database.configs, missing]
    exact ⟨rfl, kept⟩

variable (arith) in
def Database.Stores (database : Database backend) (root : Root) (name : String) :
    Option CollectionConfig → Prop
  | some config => validateCollectionName name = .ok () ∧
      Opens arith backend database.config.durability (root.directory name) config
  | none => name ∉ root.discoverable

theorem Database.Stores.congr {other : Database backend}
    {config : Option CollectionConfig} (stores : database.Stores arith root name config)
    (durability : other.config.durability = database.config.durability)
    (same : after.directory name = root.directory name) : other.Stores arith after name config := by
  cases config with
  | some config => exact ⟨stores.1, by rw [durability, same]; exact stores.2⟩
  | none =>
    intro discovered
    rw [mem_discoverable, same] at discovered
    exact stores (mem_discoverable.mpr discovered)

theorem Database.Stores.unique {left right : Option CollectionConfig}
    (isLeft : database.Stores arith root name left)
    (isRight : database.Stores arith root name right) : left = right := by
  have found : ∀ {config}, database.Stores arith root name (some config) →
      name ∈ root.discoverable := by
    rintro config ⟨valid, ⟨bytes, isBytes, -⟩, -⟩
    exact mem_discoverable.mpr ⟨valid, by rw [isBytes]; rfl⟩
  cases left with
  | none =>
    cases right with
    | none => rfl
    | some config => exact absurd (found isRight) isLeft
  | some config =>
    cases right with
    | none => exact absurd (found isLeft) isRight
    | some other =>
      obtain ⟨-, ⟨bytes, isBytes, decodes⟩, -⟩ := isLeft
      obtain ⟨-, ⟨same, isSame, decodesSame⟩, -⟩ := isRight
      cases isBytes.symm.trans isSame
      exact congrArg some (Except.ok.inj (decodes.symm.trans decodesSame))

theorem stores_of_open
    (opens : openDatabase arith backend database.root database.config root = (after, .ok opened))
    (name : String) : database.Stores arith root name (opened.configs name) := by
  obtain ⟨-, -, each, others⟩ := openDatabase_eq_ok opens
  by_cases discovered : name ∈ root.discoverable
  · obtain ⟨config, configured, found, store, opensOne⟩ := each name discovered
    rw [found]
    exact ⟨(mem_discoverable.mp discovered).1, configured, _, store, opensOne⟩
  · rw [(others name discovered).1]
    exact discovered

theorem recorded_iff : database.Recorded arith root ↔
    validateDatabaseConfig database.config = .ok () ∧
      ∀ name, database.Stores arith root name (database.configs name) := by
  constructor
  · rintro ⟨after, reopened, opens, same⟩
    refine ⟨(openDatabase_eq_ok opens).1, fun name => ?_⟩
    rw [← same]
    exact stores_of_open opens name
  · rintro ⟨valid, stores⟩
    have empty : validateDatabaseConfig
        (⟨database.root, database.config, ∅⟩ : Database backend).config = .ok () := valid
    have each : ∀ name ∈ root.discoverable, ∃ config,
        Opens arith backend database.config.durability (root.directory name) config := by
      intro name discovered
      have stored := stores name
      cases isConfig : database.configs name with
      | some config =>
        rw [isConfig] at stored
        exact ⟨config, stored.2⟩
      | none =>
        rw [isConfig] at stored
        exact absurd discovered stored
    obtain ⟨after, reopened, succeeds⟩ := openAll_succeeds empty (nodup_discoverable root) each
    have opens : openDatabase arith backend database.root database.config root =
        (after, .ok reopened) := by
      unfold openDatabase
      rw [valid]
      exact succeeds
    exact ⟨after, reopened, opens, funext fun name => (stores_of_open opens name).unique (stores name)⟩

theorem recorded_of_open {path : String} {config : DatabaseConfig}
    (opens : openDatabase arith backend path config root = (after, .ok opened)) :
    opened.Recorded arith after := by
  obtain ⟨valid, ⟨isPath, isConfig⟩, each, others⟩ := openDatabase_eq_ok opens
  refine recorded_iff.mpr ⟨isConfig ▸ valid, fun name => ?_⟩
  by_cases discovered : name ∈ root.discoverable
  · obtain ⟨stored, -, found, store, opensOne⟩ := each name discovered
    rw [found]
    refine ⟨(mem_discoverable.mp discovered).1, ?_⟩
    rw [isConfig]
    exact opens_of_opened opensOne
  · obtain ⟨missing, same⟩ := others name discovered
    rw [missing]
    intro again
    rw [mem_discoverable, same] at again
    exact discovered (mem_discoverable.mpr again)

end Opening

/-! ## What a call does -/

section Calls

variable {arith : FloatArithmetic} {backend : IndexBackend} {database changed : Database backend}
  {root after : Root} {name : String} {config : CollectionConfig}

theorem erase_put {directory : Directory} (missing : name ∉ root.directories) :
    { root.put name directory with
      directories := (root.put name directory).directories.erase name } = root := by
  cases root with
  | mk directories backups =>
    simp only [Root.put, Root.mk.injEq, and_true]
    refine Std.ExtTreeMap.ext_getElem? fun other => ?_
    rw [Std.ExtTreeMap.getElem?_erase, Std.ExtTreeMap.getElem?_insert]
    by_cases same : name = other
    · subst same
      simp [Std.ExtTreeMap.getElem?_eq_none missing]
    · simp [same]

theorem put_put {first second : Directory} :
    (root.put name first).put name second = root.put name second := by
  simp only [Root.put, Root.mk.injEq, and_true]
  refine Std.ExtTreeMap.ext_getElem? fun other => ?_
  simp only [Std.ExtTreeMap.getElem?_insert]
  split <;> rfl

theorem copyCollectionDirectory_cases {path : String} {process nonce : Nat} {source : Directory} :
    (∃ error, copyCollectionDirectory path process nonce source name root = (root, .error error)) ∨
      (name ∉ root.directories ∧ ∃ copied,
        copyCollectionDirectory path process nonce source name root =
          (root.put name copied, .ok ())) := by
  unfold copyCollectionDirectory
  split
  · exact .inl ⟨_, rfl⟩
  next missing =>
  simp only
  split
  · exact .inl ⟨_, rfl⟩
  next unused =>
  split
  · exact .inl ⟨_, by rw [erase_put unused]⟩
  next copied copies =>
    have erased : (root.put (temporaryDirectoryName name process nonce) copied).directories.erase
        (temporaryDirectoryName name process nonce) = root.directories :=
      congrArg Root.directories (erase_put unused)
    refine .inr ⟨missing, copied, ?_⟩
    rw [erased]
    rfl

theorem createCollection_cases (valid : validateDatabaseConfig database.config = .ok ()) :
    ((∃ error, database.createCollection arith name config root = (root, .error error)) ∧
      ¬ (validateCollectionName name = .ok () ∧ name ∉ database.collections)) ∨
    (validateCollectionName name = .ok () ∧ name ∉ database.collections) ∧
      ∃ next outcome, (openCollection arith backend config database.config.durability).run
          (root.directory name) = (next, outcome) ∧
        database.createCollection arith name config root =
          (root.put name next, outcome.map (database.insert name)) := by
  unfold Database.createCollection
  cases named : validateCollectionName name with
  | error error => exact .inl ⟨⟨error, rfl⟩, nofun⟩
  | ok =>
    simp only
    split
    next taken => exact .inl ⟨⟨_, rfl⟩, fun free => free.2 taken⟩
    next free =>
      rcases opens : (openCollection arith backend config database.config.durability).run
        (root.directory name) with ⟨next, outcome⟩
      refine .inr ⟨⟨trivial, free⟩, next, outcome, rfl, ?_⟩
      rw [openManaged_eq valid opens]
      cases outcome <;> rfl

theorem restoreCollection_cases {process nonce : Nat} {backupName : String}
    (valid : validateDatabaseConfig database.config = .ok ()) :
    (∃ error, database.restoreCollection arith process nonce backupName name root =
      (root, .error error)) ∨
    (validateCollectionName name = .ok () ∧ name ∉ database.collections) ∧
      ∃ stored copied next store,
        (openCollection arith backend stored database.config.durability).run copied =
          (next, .ok store) ∧
        database.restoreCollection arith process nonce backupName name root =
          (root.put name next, .ok (database.insert name store)) := by
  unfold Database.restoreCollection
  split
  · exact .inl ⟨_, rfl⟩
  · exact .inl ⟨_, rfl⟩
  next namedBackup named =>
  split
  · exact .inl ⟨_, rfl⟩
  next free =>
  split
  · exact .inl ⟨_, rfl⟩
  next source found =>
  unfold restoreBackup
  cases persistedConfig source with
  | error error => exact .inl ⟨error, rfl⟩
  | ok stored =>
    simp only
    rcases @copyCollectionDirectory_cases root name database.root process nonce source with
      ⟨error, fails⟩ | ⟨missing, copied, copies⟩
    · rw [fails]
      exact .inl ⟨error, rfl⟩
    · rw [copies]
      simp only
      unfold Database.openRestored
      rcases opens : (openCollection arith backend stored database.config.durability).run
        copied with ⟨next, outcome⟩
      have restores : (openCollection arith backend stored database.config.durability).run
          ((root.put name copied).directory name) = (next, outcome) := by
        rw [directory_put_same]
        exact opens
      rw [openManaged_eq valid restores, put_put]
      cases outcome with
      | error error => exact .inl ⟨error, by simp only [erase_put missing]⟩
      | ok store => exact .inr ⟨⟨named, free⟩, stored, copied, next, store, opens, rfl⟩

theorem recorded_insert (recorded : database.Recorded arith root)
    (named : validateCollectionName name = .ok ()) {directory next : Directory}
    {store : PersistentCollection backend}
    (opens : (openCollection arith backend config database.config.durability).run directory =
      (next, .ok store)) :
    (database.insert name store).Recorded arith (root.put name next) := by
  obtain ⟨valid, stores⟩ := recorded_iff.mp recorded
  refine recorded_iff.mpr ⟨valid, fun other => ?_⟩
  by_cases same : other = name
  · have isConfig : (database.insert name store).configs other = some config := by
      rw [same, Database.configs, ← config_of_openCollection opens]
      simp [Database.insert]
    rw [isConfig, same]
    refine ⟨named, ?_⟩
    rw [directory_put_same]
    exact opens_of_opened opens
  · have isKept : (database.insert name store).configs other = database.configs other := by
      simp [Database.configs, Database.insert, Std.ExtTreeMap.getElem?_insert, Ne.symm same]
    rw [isKept]
    exact (stores other).congr rfl (directory_put_other same)

theorem configs_eq_none (free : name ∉ database.collections) : database.configs name = none := by
  rw [Database.configs, Std.ExtTreeMap.getElem?_eq_none free]
  rfl

/-- A collection that could not be created is not discovered exactly when the temporary file
of its metadata was in the way. -/
theorem recorded_failed_create (recorded : database.Recorded arith root)
    (named : validateCollectionName name = .ok ()) (free : name ∉ database.collections)
    {next : Directory} {error : Error}
    (fails : (openCollection arith backend config database.config.durability).run
      (root.directory name) = (next, .error error)) :
    database.Recorded arith (root.put name next) ↔
      root.directory name metaTemporaryName ≠ none := by
  obtain ⟨valid, stores⟩ := recorded_iff.mp recorded
  have unknown := stores name
  rw [configs_eq_none free] at unknown
  have missing : root.directory name metaName = none := by
    rw [← Option.not_isSome_iff_eq_none]
    exact fun present => unknown (mem_discoverable.mpr ⟨named, present⟩)
  rw [openCollection_eq] at fails
  cases used : root.directory name metaTemporaryName with
  | some left =>
    rw [Program.run_bind_error (run_ensureMetadata_blocked config missing used)] at fails
    have kept : next = root.directory name := (congrArg Prod.fst fails).symm
    refine iff_of_true (recorded_iff.mpr ⟨valid, fun other => ?_⟩) nofun
    refine (stores other).congr rfl ?_
    by_cases same : other = name
    · rw [same, directory_put_same, kept]
    · exact directory_put_other same
  | none =>
    rw [Program.run_bind_ok (run_ensureMetadata_new config missing used)] at fails
    have written : next metaName = some (encodeMetadata config) :=
      ((openStored_avoids (by decide)).of_run fails).trans (Disk.write_same _ _ _)
    refine iff_of_false (fun again => ?_) (fun absent => absent rfl)
    have stored := (recorded_iff.mp again).2 name
    rw [configs_eq_none free] at stored
    refine stored (mem_discoverable.mpr ⟨named, ?_⟩)
    rw [directory_put_same, written]
    rfl

/-- An opened database is recorded on disk, and stays so when a collection is created or
restored. A call that fails changes nothing in memory, and the database is still what a later
opening discovers exactly when the call has not written the metadata of a new directory. -/
theorem failed_call_harmless_iff (arith : FloatArithmetic) (backend : IndexBackend) :
    (∀ (path : String) (config : DatabaseConfig) (root after : Root) (opened : Database backend),
      openDatabase arith backend path config root = (after, .ok opened) →
        opened.Recorded arith after) ∧
    ∀ (database changed : Database backend) (root after : Root) (call : CatalogCall),
      database.Recorded arith root →
      (database.perform arith root call = (after, changed, .ok ()) →
        changed.Recorded arith after) ∧
      ∀ error, database.perform arith root call = (after, changed, .error error) →
        changed = database ∧
          (changed.Recorded arith after ↔ ¬ database.WritesMetadata root call) := by
  refine ⟨fun path config root after opened => recorded_of_open, ?_⟩
  intro database changed root after call recorded
  have valid := (recorded_iff.mp recorded).1
  unfold Database.perform
  cases call with
  | create name config =>
    rcases @createCollection_cases arith backend database root name config valid with
      ⟨⟨refused, isRefused⟩, notFree⟩ | ⟨⟨named, free⟩, next, outcome, opens, creates⟩
    · simp only [Database.call, isRefused]
      refine ⟨nofun, fun error fails => ?_⟩
      cases fails
      exact ⟨rfl, iff_of_true recorded fun writes => notFree ⟨writes.1, writes.2.1⟩⟩
    · simp only [Database.call, creates]
      cases outcome with
      | error refused =>
        refine ⟨nofun, fun error fails => ?_⟩
        cases fails
        refine ⟨rfl, (recorded_failed_create recorded named free opens).trans ?_⟩
        exact ⟨fun used writes => used writes.2.2, fun harmless missing =>
          harmless ⟨named, free, missing⟩⟩
      | ok store =>
        refine ⟨fun succeeds => ?_, nofun⟩
        cases succeeds
        exact recorded_insert recorded named opens
  | restore process nonce backupName name =>
    rcases @restoreCollection_cases arith backend database root name process nonce backupName
      valid with ⟨refused, isRefused⟩ | ⟨⟨named, free⟩, stored, copied, next, store, opens, restores⟩
    · simp only [Database.call, isRefused]
      refine ⟨nofun, fun error fails => ?_⟩
      cases fails
      exact ⟨rfl, iff_of_true recorded id⟩
    · simp only [Database.call, restores]
      refine ⟨fun succeeds => ?_, nofun⟩
      cases succeeds
      exact recorded_insert recorded named opens

end Calls

/-! ## A call that is not harmless -/

def emptyDatabase : Database .flat where
  root := "data"
  config := ⟨.sync, 1000000000, 10000⟩
  collections := ∅

def emptyRoot : Root := ⟨∅, ∅⟩

theorem recorded_emptyDatabase (arith : FloatArithmetic) :
    emptyDatabase.Recorded arith emptyRoot := ⟨emptyRoot, emptyDatabase, rfl, rfl⟩

def afterZeroDimension : Root × Database .flat × Result Unit :=
  emptyDatabase.perform .normalised emptyRoot (.create "a" ⟨0, .dotProduct, by decide⟩)

/-- Asking for a collection of dimension zero is refused, and the database no longer opens. -/
theorem zero_dimension_blocks_opening :
    emptyDatabase.Recorded .normalised emptyRoot ∧
      afterZeroDimension.2.2.isOk = false ∧
      (openDatabase .normalised .flat "data" emptyDatabase.config afterZeroDimension.1).2.isOk =
        false :=
  ⟨recorded_emptyDatabase _, by decide +kernel, by decide +kernel⟩

def afterCreate : Root × Database .flat × Result Unit :=
  emptyDatabase.perform .normalised emptyRoot (.create "a" lineConfig)

/-- Asking for a collection that exists is refused without harm. -/
theorem second_create_is_harmless :
    afterCreate.2.2 = .ok () ∧
      ∃ after error, afterCreate.2.1.perform .normalised afterCreate.1 (.create "a" lineConfig) =
          (after, afterCreate.2.1, .error error) ∧ afterCreate.2.1.Recorded .normalised after := by
  have created : afterCreate.2.2 = .ok () := by decide +kernel
  have recorded := ((failed_call_harmless_iff .normalised .flat).2 emptyDatabase afterCreate.2.1
    emptyRoot afterCreate.1 _ (recorded_emptyDatabase _)).1 (Prod.ext rfl (Prod.ext rfl created))
  obtain ⟨error, refused⟩ := exists_error_of_not_isOk (show (afterCreate.2.1.perform .normalised
    afterCreate.1 (.create "a" lineConfig)).2.2.isOk = false by decide +kernel)
  obtain ⟨same, harmless⟩ := ((failed_call_harmless_iff .normalised .flat).2 afterCreate.2.1 _ _ _ _
    recorded).2 error (Prod.ext rfl (Prod.ext rfl refused))
  rw [same] at harmless
  exact ⟨created, _, error, Prod.ext rfl (Prod.ext same refused),
    harmless.mpr fun writes => writes.2.1 (by decide +kernel)⟩

end FocalVector.Service
