import LaGraph.Conversations.Records
import LaGraph.Foundation.Faulty
import LaGraph.Projects.Builds

open foundation

namespace lagraph.conversations

/-- `delete_project`: the conversations of a project, with their messages. -/
def Database.delete_project (db : Database) (project_id : String) : Database :=
  { db with
    rows := db.rows.filter (·.project_id ≠ project_id),
    messages := db.messages.filter fun message => db.rows.all fun row =>
      row.id ≠ message.conversation_id || row.project_id ≠ project_id }

end lagraph.conversations

namespace lagraph.registry

/-- Where a project is kept: its rows, its conversations and its directory of the
storage. -/
structure Stores where
  db : Database
  conversations : conversations.Database
  directories : List String

/-- The parts of a purge, in their order. -/
inductive PurgeStage
  | rows | conversations | storage
  deriving DecidableEq, Repr

inductive PurgeError
  | Refused (error : ProjectError)
  | ValueError (message : String)
  /-- The step fails. -/
  | Failed
  deriving DecidableEq, Repr

/-- A computation over the stores; its steps are the stages of the purges. -/
abbrev Purging : Type → Type :=
  Faulty (String × PurgeStage) PurgeError Stores

/-- The name of an entry of a directory. -/
def is_entry_name (name : String) : Bool :=
  name ∉ ["", ".", ".."] && '/' ∉ name.toList

section Retention

-- Whether foreign keys are enforced, how long archives are kept, and the time.
variable (enforced : Bool) (retention now : Moment)

/-- What `purge_expired` commits. -/
def purged_rows (project_id : String) (db : Database) : Except PurgeError Database :=
  match (purge_expired enforced project_id retention now).run db with
  | .ok result => .ok result.2
  | .error e => .error (.Refused e)

/-- The purge of a project, by the route or by the cleanup. -/
def purge (project_id : String) : Purging Unit := do
  Faulty.step (project_id, .rows) .Failed
  let stores ← Faulty.read
  let db ← Faulty.ofExcept (purged_rows enforced retention now project_id stores.db)
  Faulty.change fun stores => { stores with db }
  Faulty.step (project_id, .conversations) .Failed
  Faulty.change fun stores =>
    { stores with conversations := stores.conversations.delete_project project_id }
  Faulty.step (project_id, .storage) .Failed
  Faulty.raiseIf (is_entry_name project_id = false)
    (.ValueError "Project storage path is invalid")
  Faulty.change fun stores =>
    { stores with directories := stores.directories.filter (· ≠ project_id) }

/-- The projects that the cleanup lists. -/
def expired_projects (db : Database) : List String :=
  match (expired_archives retention now).run db with
  | .ok result => result.1
  | .error _ => []

/-- What other requests make of the row of a project: another row, or none. -/
def Database.meanwhile (db : Database) (project_id : String)
    (becomes : ProjectRow → Option ProjectRow) : Database :=
  match (db.projects.get project_id).bind becomes with
  | none => { db with projects := db.projects.delete (·.id = project_id) }
  | some row =>
    { db with
      projects := db.projects.update (·.id = project_id) (fun old => { row with id := old.id })
        fun _ => rfl }

variable (becomes : String → ProjectRow → Option ProjectRow)

/-- The turn of a listed project. `becomes` is what others make of it before. -/
def turn (project_id : String) : Purging Unit := do
  Faulty.change fun stores =>
    { stores with db := stores.db.meanwhile project_id (becomes project_id) }
  purge enforced retention now project_id

/-- The part of a round of the cleanup that is about projects. -/
def cleanup_projects : Purging Unit := do
  let stores ← Faulty.read
  Faulty.forEach (turn enforced retention now becomes)
    (expired_projects retention now stores.db)

end Retention

/-- A round in which no step fails and nobody interferes. -/
def faultless_round (enforced : Bool) (retention now : Moment) (stores : Stores) : Stores :=
  (cleanup_projects enforced retention now (fun _ => some) (fun _ => .passes) stores).2

/-- Such rounds, one after the other, by the clock. -/
def faultless_rounds (enforced : Bool) (retention : Moment) :
    (clock : Nat → Moment) → (n : Nat) → Stores → Stores
  | _, 0, stores => stores
  | clock, n + 1, stores =>
    faultless_rounds enforced retention (fun k => clock (k + 1)) n
      (faultless_round enforced retention (clock 0) stores)

end lagraph.registry
