import LaGraph.Foundation.Runs
import LaGraph.Knowledge.Ingestion.Execute
import LaGraph.Knowledge.Ingestion.Record

open foundation foundation.Faulty

namespace lagraph.knowledge

/-- The operations on the knowledge directories. An ingestion and a rollback come
with the fates of their steps; a restart touches nothing. -/
inductive Operation
  | ingest (run : Ingestion) (fates : Stage → Fate)
  | rollback (fates : Stage → Fate)
  | restart

def Operation.apply : Operation → World → World
  | .ingest run fates, w => (execute run fates w).2
  | .rollback fates, w => (knowledge.rollback fates w).2
  | .restart, w => w

/-- The identifier of an ingestion is a fresh one. -/
def Operation.Admissible (w : World) : Operation → Prop
  | .ingest run _ => Fresh w run.ingestion_id
  | .rollback _ => True
  | .restart => True

/-- An operation under the process lock. -/
def Operates (w : World) (op : Operation) (w' : World) : Prop :=
  op.Admissible w ∧ w' = op.apply w

/-- At most one step of the operation fails. -/
def Operation.SingleFault : Operation → Prop
  | .ingest _ fates => Faulty.SingleFault fates
  | .rollback fates => Faulty.SingleFault fates
  | .restart => True

theorem Operates.executed {run : Ingestion} {fates : Stage → Fate} {w w' : World}
    (h : Operates w (.ingest run fates) w') : Executed run fates w w' := by
  obtain ⟨hfresh, rfl⟩ := h
  exact execute_spec hfresh

theorem Operates.rolledBack {fates : Stage → Fate} {w w' : World}
    (h : Operates w (.rollback fates) w') : RolledBack fates w w' := by
  obtain ⟨-, rfl⟩ := h
  exact rollback_spec

/-- The default settings, with one profile for every document. -/
def default_settings : Settings where
  graphify_package_version := "0.9.18"
  knowledge_processing_fingerprint := "profiles-1"
  profile_of := fun _ => "default"
  knowledge_graph_versions_to_keep := 2
  keep_ge := by decide
  keep_le := by decide

/-- An ingestion of a source version that meets no obstacle outside. -/
def ingestion_of (id source_version : String) (hid : valid_version_name id = true) :
    Ingestion where
  settings := default_settings
  ingestion_id := id
  valid_id := hid
  force := false
  started := "2025-01-01T00:00:00+00:00"
  completed := "2025-01-01T00:01:00+00:00"
  source := .ok ⟨source_version, []⟩
  graphify := .ok (.object (some 1) (some 0))
  passages := some 1

/-- The first ingestion of an installation. -/
def first_build : Ingestion := ingestion_of "20250101T000000Z-0a0a0a0a" "s1" (by decide)

def first_built : World := (Operation.ingest first_build (raising [])).apply .empty

theorem fresh_empty (id : String) : Fresh .empty id :=
  ⟨by simp [World.empty], rfl, by simp [World.empty], by simp [World.empty]⟩

theorem first_build_operates : Operates .empty (.ingest first_build (raising [])) first_built :=
  ⟨fresh_empty _, rfl⟩

end lagraph.knowledge
