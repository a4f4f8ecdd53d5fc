/-
The scripts Drop_DB.sql, 2_Create_Lookup_DB.sql and 3_Create_Submit_DB.sql as statements on the catalog, and what the
triggers of the loading tables do to it. SET lines and CREATE EXTENSION IF NOT EXISTS touch none of the objects here
and are left out, and so are the texts of views and functions: no name is ever given to two different ones.

A primary key or a unique constraint brings an index of its own name, and `serial` brings a sequence. A foreign key
refers to the table and the primary key of the other side. A view refers to its tables, to the domain of its columns,
and to a primary key where its GROUP BY rests on one.
-/
import Mathlib.Tactic
import IconSetup.Core.Catalog

namespace IconSetup.Scripts

/-- Tables, views, indexes and sequences share their names. Constraints and triggers are named within a table. -/
inductive Name where
  | domain (name : String)
  | rel (name : String)
  | constraint (table name : String)
  | function (name : String)
  | trigger (table name : String)
deriving DecidableEq, Repr

inductive SqlType where
  | smallint
  | integer
  | bigint
  | doublePrecision
  | boolean
  | date
  | timestamptz
  | varchar (n : ℕ)
  | text
  | uuid
  | bytea
  | domain (name : String)
deriving DecidableEq, Repr

structure Column where
  name : String
  type : SqlType
  notNull : Bool
  default : Option String
deriving DecidableEq, Repr

inductive Definition where
  | domain (base : SqlType) (check : String)
  | table (columns : List Column)
  | sequence
  | primaryKey (columns : List String)
  | unique (columns : List String)
  | foreignKey (columns : List String) (references : String) (onDeleteCascade : Bool)
  | index (table : String) (columns : List String)
  | view
  | materializedView
  | triggerFunction
  | trigger (event : String)
deriving DecidableEq, Repr

/-- a stored value -/
inductive Cell where
  | null
  | text (s : String)
  | int (n : ℤ)
  | date (day : ℤ)
deriving DecidableEq, Repr

abbrev Row := List Cell

abbrev Obj := Catalog.Obj Name Definition

abbrev Stmt := Catalog.Stmt Name Definition Row

abbrev Db := Catalog.Db Name Definition Row

/-! ## Objects -/

/-- a nullable column without a default -/
def col (name : String) (type : SqlType) : Column := ⟨name, type, false, none⟩

def notNull (name : String) (type : SqlType) (default : Option String) : Column := ⟨name, type, true, default⟩

/-- the domain of a column's type -/
def Column.domain (c : Column) : Option Name :=
  match c.type with
  | .domain d => some (.domain d)
  | _ => none

def table (name : String) (columns : List Column) : Obj :=
  ⟨.rel name, none, (columns.filterMap Column.domain).dedup, .table columns⟩

def primaryKey (table name : String) (columns : List String) : List Obj :=
  [⟨.constraint table name, some (.rel table), [], .primaryKey columns⟩,
    ⟨.rel name, some (.rel table), [], .index table columns⟩]

def unique (table name : String) (columns : List String) : List Obj :=
  [⟨.constraint table name, some (.rel table), [], .unique columns⟩,
    ⟨.rel name, some (.rel table), [], .index table columns⟩]

/-- `FOREIGN KEY (column) REFERENCES references(snomed) ON DELETE CASCADE` -/
def foreignKey (table name column references pkey : String) : Obj :=
  ⟨.constraint table name, some (.rel table), [.rel references, .constraint references pkey],
    .foreignKey [column] references true⟩

def index (name table column : String) : Stmt :=
  .create ⟨.rel name, some (.rel table), [], .index table [column]⟩ []

def view (name : String) (uses : List Name) : Stmt := .createOrReplace ⟨.rel name, none, uses, .view⟩

def materializedView (name : String) (uses : List Name) : Stmt := .create ⟨.rel name, none, uses, .materializedView⟩ []

def function (name : String) : Stmt := .createOrReplace ⟨.function name, none, [], .triggerFunction⟩

def trigger (table name event function : String) : Stmt :=
  .create ⟨.trigger table name, some (.rel table), [.function function], .trigger event⟩ []

/-! ## Drop_DB.sql -/

/-- each DROP .. IF EXISTS, with whether it says CASCADE -/
def dropDb : List (Name × Bool) :=
  [ (.rel "retrieval_lookups", true),
    (.rel "lot_lookups", true),
    (.rel "immunization_lookups", true),
    (.rel "cities_index", true),
    (.rel "geocodes_index", true),
    (.rel "schools_daycares_index", true),
    (.rel "lots_index", true),
    (.rel "trades_index", true),
    (.rel "agents_index", true),
    (.rel "diseases_index", true),
    (.rel "agents_diseases", true),
    (.rel "trades_agents", true),
    (.rel "lots", true),
    (.rel "diseases", true),
    (.rel "agents", true),
    (.rel "trades", true),
    (.rel "geocodes", true),
    (.rel "public_health_units", true),
    (.rel "schools_daycares", true),
    (.rel "Submission_Attachment", true),
    (.rel "Immun_Submission", true),
    (.rel "process_lock", true),
    (.rel "load_lots", true),
    (.rel "lots_bak", true),
    (.rel "load_schools_daycares", true),
    (.rel "schools_daycares_bak", true),
    (.function "load_lots", false),
    (.function "load_schools_daycares", false),
    (.domain "prevalence_range", false) ]

/-! ## 2_Create_Lookup_DB.sql -/

def prevalenceRange : Obj :=
  ⟨.domain "prevalence_range", none, [], .domain .smallint "VALUE >= 1 AND VALUE <= 9 OR NULL"⟩

def lotsColumns : List Column :=
  [ notNull "lot_id" .integer (some "nextval('lots_lot_id_seq')"),
    col "lot_number" (.varchar 100),
    col "expiry" .date,
    col "agent_snomed" .bigint,
    col "trade_panorama_name" (.varchar 100) ]

def lotsParts : List Obj :=
  ⟨.rel "lots_lot_id_seq", some (.rel "lots"), [], .sequence⟩ :: primaryKey "lots" "lots_pkey" ["lot_id"]

def schoolsDaycaresColumns : List Column :=
  [ col "identifier" (.varchar 50),
    col "phu" (.varchar 100),
    col "org_type" (.varchar 100),
    col "name" (.varchar 100),
    col "address" (.varchar 100),
    col "postal_code" (.varchar 8),
    col "city" (.varchar 100) ]

def geocodesColumns : List Column :=
  [ col "postal_code" (.varchar 7),
    col "city" (.varchar 100),
    col "province" (.varchar 50),
    col "province_abbr" (.varchar 10),
    col "latitude" .doublePrecision,
    col "longitude" .doublePrecision,
    col "street_name" (.varchar 100),
    col "street_type" (.varchar 20),
    col "street_dir" (.varchar 20),
    col "street_from_no" .bigint,
    col "street_to_no" .bigint,
    col "rural_route" (.varchar 100),
    col "country" (.varchar 100),
    col "street_type_full" (.varchar 20),
    col "street_dir_full" (.varchar 20) ]

/-- CREATE DATA TYPE and CREATE TABLES -/
def createTables : List Stmt :=
  [ .drop (.domain "prevalence_range") false,
    .create prevalenceRange [],
    .create
      (table "trades"
        [ col "snomed" .bigint, col "friendly_en_name" (.varchar 100), col "friendly_fr_name" (.varchar 100),
          col "manufacturer" (.varchar 100), col "ontario_start_year" .integer, col "ontario_finish_year" .integer,
          col "prevalence_index" (.domain "prevalence_range"), col "panorama_name" (.varchar 100) ])
      (primaryKey "trades" "trades_pkey" ["snomed"]),
    .create
      (table "agents"
        [ col "snomed" .bigint, col "short_en_name" (.varchar 100), col "short_fr_name" (.varchar 100),
          col "long_en_name" (.varchar 100), col "long_fr_name" (.varchar 100), col "is_user_view" .boolean,
          col "prevalence_index" (.domain "prevalence_range"), col "ontario_start_year" .integer,
          col "ontario_finish_year" .integer, col "ordered_diseases_fr" (.varchar 200),
          col "ordered_diseases_en" (.varchar 200) ])
      (primaryKey "agents" "agents_pkey" ["snomed"]),
    .create
      (table "diseases"
        [ col "snomed" .bigint, col "friendly_en_name" (.varchar 100), col "friendly_fr_name" (.varchar 100),
          col "yellow_card_order" (.domain "prevalence_range") ])
      (primaryKey "diseases" "diseases_pkey" ["snomed"]),
    .create (table "lots" lotsColumns) lotsParts,
    .create
      (table "public_health_units"
        [ notNull "id" .smallint none, col "name" (.varchar 100), col "acronym" (.varchar 20),
          col "app_version" (.varchar 10) ])
      (unique "public_health_units" "public_health_units_id_key" ["id"]),
    .create (table "trades_agents" [col "agent_snomed" .bigint, col "trade_snomed" .bigint])
      (primaryKey "trades_agents" "trades_agents_pkey" ["agent_snomed", "trade_snomed"] ++
        [ foreignKey "trades_agents" "agents_fkey" "agent_snomed" "agents" "agents_pkey",
          foreignKey "trades_agents" "trades_fkey" "trade_snomed" "trades" "trades_pkey" ]),
    .create (table "agents_diseases" [col "agent_snomed" .bigint, col "disease_snomed" .bigint])
      (primaryKey "agents_diseases" "agents_diseases_pkey" ["agent_snomed", "disease_snomed"] ++
        [ foreignKey "agents_diseases" "agents_fkey" "agent_snomed" "agents" "agents_pkey",
          foreignKey "agents_diseases" "diseases_fkey" "disease_snomed" "diseases" "diseases_pkey" ]),
    .create (table "schools_daycares" schoolsDaycaresColumns)
      (primaryKey "schools_daycares" "schools_daycares_pkey" ["identifier"]),
    .create (table "geocodes" geocodesColumns) [],
    .create
      (table "process_lock"
        [notNull "process_name" (.varchar 50) none, notNull "updated_at" .date (some "CURRENT_DATE")])
      (unique "process_lock" "process_lock_process_name_key" ["process_name"]) ]

/-- `INSERT INTO process_lock VALUES ('data-dictionary', current_date - interval '60 days')`; process_name is
UNIQUE -/
def seedProcessLock (currentDate : ℤ) : Stmt :=
  .write (.rel "process_lock") fun rows =>
    if rows.any (·.head? = some (.text "data-dictionary")) then none
    else some (rows ++ [[.text "data-dictionary", .date (currentDate - 60)]])

/-- CREATE INDEX, CREATE VIEWS and CREATE FUNCTIONS -/
def createIndexesViewsFunctions : List Stmt :=
  [ index "trades_agents_agent_snomed_fkey_idx" "trades_agents" "agent_snomed",
    index "trades_agents_trade_snomed_fkey_idx" "trades_agents" "trade_snomed",
    index "agents_diseases_agent_snomed_fkey_idx" "agents_diseases" "agent_snomed",
    index "agents_diseases_disease_snomed_fkey_idx" "agents_diseases" "disease_snomed",
    index "lots_agent_jf_idx" "lots" "agent_snomed",
    index "lots_trade_jf_idx" "lots" "trade_panorama_name",
    index "trades_jf_idx" "trades" "panorama_name",
    view "diseases_index" [.rel "diseases", .domain "prevalence_range"],
    view "agents_index" [.rel "agents", .domain "prevalence_range"],
    view "trades_index" [.rel "trades", .domain "prevalence_range"],
    view "lots_index" [.rel "lots"],
    materializedView "schools_daycares_index" [.rel "schools_daycares"],
    materializedView "geocodes_index" [.rel "geocodes"],
    materializedView "cities_index" [.rel "geocodes_index"],
    view "immunization_lookups"
      [ .rel "agents", .rel "trades_agents", .rel "trades", .rel "agents_diseases", .rel "diseases",
        .constraint "agents" "agents_pkey", .constraint "trades" "trades_pkey" ],
    view "lot_lookups" [.rel "agents", .rel "lots", .rel "trades"],
    view "retrieval_lookups"
      [ .rel "agents", .rel "agents_diseases", .rel "diseases", .rel "trades_agents", .rel "trades",
        .constraint "agents" "agents_pkey", .constraint "trades" "trades_pkey" ],
    .createIfNotExists (table "load_schools_daycares" [col "values" .text]) [],
    function "load_schools_daycares",
    .drop (.trigger "load_schools_daycares" "load_schools_daycares") false,
    trigger "load_schools_daycares" "load_schools_daycares" "AFTER INSERT FOR EACH ROW" "load_schools_daycares",
    .createIfNotExists (table "load_lots" [col "values" .text]) [],
    .createIfNotExists (table "lots" lotsColumns) lotsParts,
    function "load_lots",
    .drop (.trigger "load_lots" "load_lots") false,
    trigger "load_lots" "load_lots" "AFTER INSERT FOR EACH ROW" "load_lots" ]

def createLookupDb (currentDate : ℤ) : List Stmt :=
  createTables ++ seedProcessLock currentDate :: createIndexesViewsFunctions

/-! ## 3_Create_Submit_DB.sql -/

/-- `ALTER TABLE ONLY table ADD CONSTRAINT name PRIMARY KEY ("Id")` -/
def addPrimaryKey (table name : String) : Stmt :=
  .create ⟨.constraint table name, some (.rel table), [], .primaryKey ["Id"]⟩
    [⟨.rel name, some (.rel table), [], .index table ["Id"]⟩]

def createSubmitDb : List Stmt :=
  [ .drop (.rel "Immun_Submission") false,
    .create
      (table "Immun_Submission"
        [ notNull "Id" .uuid none, notNull "Transaction_Id" (.varchar 50) none, notNull "Session_Id" (.varchar 50) none,
          notNull "Object_Version" (.varchar 50) none, notNull "Object_Profile" (.varchar 50) none,
          col "Immun_Object" .bytea, notNull "Transaction_Token" (.varchar 500) none,
          ⟨"Failed_Validation", .boolean, false, some "FALSE"⟩, ⟨"Attempt_History", .text, false, some "''::text"⟩,
          notNull "Created_At" .timestamptz (some "CURRENT_TIMESTAMP") ])
      [],
    .drop (.rel "Submission_Attachment") false,
    .create
      (table "Submission_Attachment"
        [ notNull "Id" .uuid none, notNull "Transaction_Id" (.varchar 50) none,
          notNull "Original_Filename" (.varchar 260) none, notNull "File_Mime_Type" (.varchar 130) none,
          col "File_Content" .bytea, notNull "Created_At" .timestamptz (some "CURRENT_TIMESTAMP") ])
      [],
    addPrimaryKey "Immun_Submission" "Immun_Submission_pkey",
    addPrimaryKey "Submission_Attachment" "Submission_Attachment_pkey",
    function "file_upload_check",
    trigger "Submission_Attachment" "file_upload_check" "BEFORE INSERT FOR EACH ROW" "file_upload_check" ]

/-! ## The triggers of the loading tables -/

inductive Loader where
  | lots
  | schoolsDaycares
deriving DecidableEq, Repr

def Loader.target : Loader → String
  | .lots => "lots"
  | .schoolsDaycares => "schools_daycares"

def Loader.staging : Loader → String
  | .lots => "load_lots"
  | .schoolsDaycares => "load_schools_daycares"

/-- `CREATE TABLE lots_bak AS SELECT * FROM lots`: the columns, without constraints and defaults -/
def Loader.bak : Loader → Obj
  | .lots => ⟨.rel "lots_bak", none, [], .table (lotsColumns.map fun c => col c.name c.type)⟩
  | .schoolsDaycares =>
    ⟨.rel "schools_daycares_bak", none, [], .table (schoolsDaycaresColumns.map fun c => col c.name c.type)⟩

/-- the index view that the trigger function refreshes -/
def Loader.refreshed : Loader → Option String
  | .lots => none
  | .schoolsDaycares => some "schools_daycares_index"

/-- The body of the trigger function, on what the catalog knows of it. The payload's rows and the rows of the
refreshed view are whatever the load computes. -/
def Loader.body (l : Loader) (payload viewed : List Row) : List Stmt :=
  [ .drop l.bak.name false,
    .createAs l.bak (.rel l.target),
    .write (.rel l.target) fun _ => some [],
    .write (.rel l.target) fun rows => some (rows ++ payload),
    .write (.rel l.staging) fun _ => some [] ] ++
  l.refreshed.toList.map fun v => .write (.rel v) fun _ => some viewed

/-- INSERT of a text into the loading table: the row, and the trigger when there is one -/
def Loader.load (l : Loader) (triggered : Bool) (text : String) (payload viewed : List Row) : List Stmt :=
  .write (.rel l.staging) (fun rows => some (rows ++ [[.text text]])) ::
    if triggered then l.body payload viewed else []

end IconSetup.Scripts
