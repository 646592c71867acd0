import SnapshotStore.Service
import SnapshotStore.Text.Lowercase

/-!
# Engines

An engine is a catalog of databases, each a catalog of tables, over one store and the sessions that
work on it. Names are compared without regard to case and shown as they were given.

Dropping a database or a table takes its name out of the catalog and nothing else: whoever knows
its number goes on using it. A closed engine opens no session, admits no new transaction and
answers no question about databases but whether one exists; transactions that are running may end.
-/

namespace SnapshotStore

/-- The number of a database. -/
abbrev DatabaseId := Nat

/-- A named collection of tables. -/
structure Database where
  name : String
  /-- The tables by their lower-case names. -/
  tables : Std.ExtTreeMap String TableId := ∅

/-- A catalog over a store at work. -/
structure Engine where
  config : Config
  isOpen : Bool := false
  service : Service := {}
  /-- All databases, dropped ones included. -/
  databases : Std.ExtTreeMap DatabaseId Database := ∅
  /-- The databases by their lower-case names. -/
  catalog : Std.ExtTreeMap String DatabaseId := ∅

namespace Engine

/-! ## 1. Opening and closing -/

/-- A closed engine. -/
def create (config : Config) : Engine := { config }

/-- Opens the engine; an open engine stays as it is. -/
def turnOn (engine : Engine) : Engine :=
  if engine.isOpen then engine
  else { engine with isOpen := true, service := (engine.service.handle (.setAccepting true)).1 }

/-- Closes the engine; a closed engine stays as it is. -/
def turnOff (engine : Engine) : Engine :=
  if engine.isOpen then
    { engine with isOpen := false, service := (engine.service.handle (.setAccepting false)).1 }
  else engine

/-- An open engine with the default configuration. -/
def inMemory : Engine := (create {}).turnOn

/-- Refuses what a closed engine does not do. -/
def checkOpen (engine : Engine) : Except Error Unit :=
  if engine.isOpen then .ok () else .error .engineClosed

/-- Has a request answered. -/
def handle (engine : Engine) (request : Request) : Engine × Reply :=
  let (service, reply) := engine.service.handle request
  ({ engine with service }, reply)

/-- Opens a session at the configured isolation level. -/
def openSession (engine : Engine) : Except Error (Engine × Reply) := do
  engine.checkOpen
  return engine.handle (.openSession engine.config.isolation)

/-! ## 2. Databases -/

/-- Creates a database and returns its number. -/
def createDatabase (engine : Engine) (name : String) : Except Error (Engine × DatabaseId) := do
  engine.checkOpen
  let key := Text.lowercase name
  if engine.catalog.contains key then
    throw (.databaseAlreadyExists name)
  let id := engine.databases.size
  return ({ engine with
    databases := engine.databases.insert id { name }
    catalog := engine.catalog.insert key id }, id)

/-- The number of the database of that name. -/
def findDatabase (engine : Engine) (name : String) : Except Error DatabaseId := do
  engine.checkOpen
  match engine.catalog[Text.lowercase name]? with
  | some id => return id
  | none => throw (.databaseNotFound name)

/-- A database of that name exists. -/
def hasDatabase (engine : Engine) (name : String) : Bool :=
  engine.catalog.contains (Text.lowercase name)

/-- Takes a database out of the catalog. -/
def dropDatabase (engine : Engine) (name : String) : Except Error Engine := do
  let _ ← engine.findDatabase name
  return { engine with catalog := engine.catalog.erase (Text.lowercase name) }

/-- The database of that number. -/
def database (engine : Engine) (id : DatabaseId) : Database :=
  engine.databases[id]?.getD { name := "" }

/-- The names of the databases in the catalog, sorted. -/
def databaseNames (engine : Engine) : List String :=
  (engine.catalog.toList.map fun (_, id) => (engine.database id).name).mergeSort
    fun a b => a ≤ b

/-! ## 3. Tables -/

/-- Creates an empty table in a database and returns its number. -/
def createTable (engine : Engine) (id : DatabaseId) (name : String) (schema : Schema) :
    Except Error (Engine × TableId) := do
  let database := engine.database id
  let key := Text.lowercase name
  if database.tables.contains key then
    throw (.tableAlreadyExists name)
  let (store, table) := engine.service.store.addTable (.create name schema engine.config)
  let database := { database with tables := database.tables.insert key table }
  return ({ engine with
    service := { engine.service with store }
    databases := engine.databases.insert id database }, table)

/-- The number of the table of that name in a database. -/
def findTable (engine : Engine) (id : DatabaseId) (name : String) : Except Error TableId :=
  match (engine.database id).tables[Text.lowercase name]? with
  | some table => .ok table
  | none => .error (.tableNotFound name)

/-- Takes a table out of a database. -/
def dropTable (engine : Engine) (id : DatabaseId) (name : String) : Except Error Engine := do
  let _ ← engine.findTable id name
  let database := engine.database id
  let database := { database with tables := database.tables.erase (Text.lowercase name) }
  return { engine with databases := engine.databases.insert id database }

/-- The name that a table was created under. -/
def tableName (engine : Engine) (id : TableId) : String :=
  ((engine.service.store.tables[id]?).map Table.name).getD ""

/-- The names of the tables of a database, sorted. -/
def tableNames (engine : Engine) (id : DatabaseId) : List String :=
  ((engine.database id).tables.toList.map fun (_, table) => engine.tableName table).mergeSort
    fun a b => a ≤ b

/-- Applies a change to one table. -/
def modifyTable (engine : Engine) (id : TableId) (change : Table → Table) : Engine :=
  { engine with service.store := engine.service.store.modifyTable id change }

/-! ## 4. All tables -/

/-- The tables of all databases in the catalog. -/
def catalogedTables (engine : Engine) : List TableId :=
  engine.catalog.toList.flatMap fun (_, id) => (engine.database id).tables.toList.map Prod.snd

/-- Frees what no snapshot can reach in every table of the catalog. -/
def reclaim (engine : Engine) : Engine × Reply := engine.handle (.reclaim engine.catalogedTables)

/-- The description of an engine that logs use. -/
def describe (engine : Engine) : String :=
  Text.described "Engine" [
    ("open", Text.truth engine.isOpen),
    ("databases", Text.listed (engine.databaseNames.map Text.quoted)),
    ("config", engine.config.describe)]

/-- The description of a database that logs use. -/
def describeDatabase (engine : Engine) (id : DatabaseId) : String :=
  Text.described "Database" [
    ("name", Text.quoted (engine.database id).name),
    ("tables", Text.listed ((engine.tableNames id).map Text.quoted))]

end Engine

end SnapshotStore
