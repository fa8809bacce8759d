import LaGraph.Plsql.Caches.Impact
import LaGraph.Plsql.Impact

open foundation foundation.Stateful

namespace lagraph.plsql

variable {env : Environment} {client : AnalysisClient} {db : AnalysisGraph} {s s' : ClientState}
  {α β : Type}

/-- A relation of states that the two operations which change the caches allow. -/
structure CacheRule (env : Environment) (client : AnalysisClient) (db : AnalysisGraph)
    (R : ClientState → ClientState → Prop) : Prop where
  refl : ∀ s, R s s
  trans : ∀ a b c, R a b → R b c → R a c
  get_object : ∀ object_id, Guarantees R (Reads.get_object client db object_id)
  impact_of : ∀ moment object_id max_hops limit direction relationships offset,
    Guarantees R
      (impact_of env client db moment object_id max_hops limit direction relationships offset)

namespace CacheRule

variable {R : ClientState → ClientState → Prop} (rule : CacheRule env client db R)

include rule

theorem bind {m : Reads α} {f : α → Reads β} (hm : Guarantees R m)
    (hf : ∀ a, Guarantees R (f a)) : Guarantees R (m >>= f) :=
  Guarantees.bind rule.trans hm hf

theorem done (a : α) : Guarantees R (pure a : Reads α) :=
  Guarantees.pure rule.refl a

theorem lift (x : Except Raised α) : Guarantees R (liftM x : Reads α) :=
  Guarantees.lift rule.refl x

theorem require_object (object_id : String) :
    Guarantees R (Reads.require_object client db object_id) := by
  rw [Reads.require_object]
  refine rule.bind (rule.get_object object_id) fun record => ?_
  cases record with
  | none => exact Guarantees.throw rule.refl _
  | some record => exact rule.done record

section Dependencies

theorem callers_of_rule (object_id : String) (limit : Int) :
    Guarantees R (callers_of client db object_id limit) :=
  rule.bind (rule.require_object object_id) fun _ => rule.lift _

theorem callees_of_rule (object_id : String) (limit : Int) :
    Guarantees R (callees_of client db object_id limit) :=
  rule.bind (rule.require_object object_id) fun _ => rule.lift _

theorem table_access_of_rule (object_id : String) (limit : Int) :
    Guarantees R (table_access_of client db object_id limit) :=
  rule.bind (rule.require_object object_id) fun _ => rule.lift _

theorem object_source_rule (object_id : String) :
    Guarantees R (object_source client db env object_id) := by
  refine rule.bind (rule.require_object object_id) fun record => ?_
  cases OBJECT_DECLARATION db client.project_id record.qualified_name with
  | nil => exact rule.done none
  | cons row rest =>
    cases hpath : row.path with
    | none =>
      simp only [hpath]
      exact rule.done none
    | some path =>
      simp only [hpath]
      split_ifs
      · exact rule.done none
      · exact Guarantees.map (rule.lift _) some

theorem health_rule (object_id : Option String) (limit : Int) :
    Guarantees R (health client db object_id limit) := by
  have hrest (scope : Option PlsqlObjectRecord) : Guarantees R (do
      let edges ← unresolved_references client db client.max_rows
      pure (health_report scope edges.items
        (bounded_limit client.toNeo4jPlsqlAnalysisClient limit)) : Reads PlsqlHealthRecord) :=
    rule.bind (rule.lift _) fun edges => rule.done _
  unfold health
  cases object_id with
  | none => exact rule.bind (rule.done none) hrest
  | some object_id =>
    exact rule.bind (Guarantees.map (rule.require_object object_id) some) hrest

theorem dependencies_of_rule (object_id : String) (category : PlsqlDependencyCategory)
    (limit : Int) : Guarantees R (dependencies_of client db object_id category limit) :=
  rule.bind (rule.require_object object_id) fun _ =>
    rule.bind (rule.callers_of_rule object_id _) fun _ =>
      rule.bind (rule.callees_of_rule object_id _) fun _ =>
        rule.bind (rule.table_access_of_rule object_id _) fun _ => rule.done _

theorem find_paths_rule (from_id to_id : String) (max_hops limit offset : Int) :
    Guarantees R (Reads.find_paths env client db from_id to_id max_hops limit offset) := by
  have hget : Guarantees R (get : Reads ClientState) := fun s => rule.refl s
  exact rule.bind hget fun state => rule.bind (rule.require_object from_id) fun _ =>
    rule.bind (rule.require_object to_id) fun _ => rule.lift _

end Dependencies

theorem overview_of_rule (moment : Moment) (object_id : String) (max_hops limit : Int) :
    Guarantees R (overview_of env client db moment object_id max_hops limit) :=
  rule.bind (rule.require_object object_id) fun _ => rule.bind (rule.lift _) fun _ =>
    rule.bind (rule.table_access_of_rule object_id _) fun _ =>
      rule.bind (rule.impact_of moment object_id _ _ _ _ _) fun _ => rule.bind (rule.lift _) fun _ =>
        rule.bind (rule.lift _) fun _ => rule.bind (rule.lift _) fun _ =>
          rule.bind (Guarantees.mapM rule.refl rule.trans rule.get_object _) fun _ => rule.done _

/-- So does every request. -/
theorem serve_rule (moment : Moment) (request : Request) :
    Guarantees R (serve env client db moment request) := by
  cases request with
  | search_objects query kinds limit => exact rule.bind (rule.lift _) fun _ => rule.done _
  | get_object object_id => exact rule.bind (rule.get_object object_id) fun _ => rule.done _
  | callers_of object_id limit =>
    exact rule.bind (rule.callers_of_rule object_id limit) fun _ => rule.done _
  | callees_of object_id limit =>
    exact rule.bind (rule.callees_of_rule object_id limit) fun _ => rule.done _
  | table_access_of object_id limit =>
    exact rule.bind (rule.table_access_of_rule object_id limit) fun _ => rule.done _
  | unresolved_references limit => exact rule.bind (rule.lift _) fun _ => rule.done _
  | relationship_evidence relationship_id => exact rule.bind (rule.lift _) fun _ => rule.done _
  | object_source object_id => exact rule.bind (rule.object_source_rule object_id) fun _ => rule.done _
  | file_source file_id start_line end_line => exact rule.bind (rule.lift _) fun _ => rule.done _
  | find_paths from_id to_id max_hops limit offset =>
    exact rule.bind (rule.find_paths_rule from_id to_id max_hops limit offset) fun _ => rule.done _
  | impact_of object_id max_hops limit direction relationships offset =>
    exact rule.bind (rule.impact_of moment object_id _ _ _ _ _) fun _ => rule.done _
  | health object_id limit => exact rule.bind (rule.health_rule object_id limit) fun _ => rule.done _
  | dependencies_of object_id category limit =>
    exact rule.bind (rule.dependencies_of_rule object_id category limit) fun _ => rule.done _
  | overview_of object_id max_hops limit =>
    exact rule.bind (rule.overview_of_rule moment object_id max_hops limit) fun _ => rule.done _

end CacheRule

/-- The caches after a sequence of requests. -/
def state_after (env : Environment) (client : AnalysisClient) (db : AnalysisGraph)
    (state : ClientState) (requests : List (Moment × Request)) : ClientState :=
  requests.foldl (fun state request =>
    ((serve env client db request.1 request.2).run.run state).2) state

/-- And every sequence of requests. -/
theorem CacheRule.state_after {R : ClientState → ClientState → Prop}
    (rule : CacheRule env client db R) (s : ClientState) (requests : List (Moment × Request)) :
    R s (plsql.state_after env client db s requests) := by
  induction requests generalizing s with
  | nil => exact rule.refl s
  | cons request requests ih =>
    exact rule.trans _ _ _ (rule.serve_rule request.1 request.2 s) (ih _)

section Impact

variable {moment : Moment} {direction : ImpactDirection} {max_hops limit offset : Int}
  {relationships : Option (List PlsqlRelationship)}

/-- The page of an impact. -/
def impact_page (client : AnalysisClient) (impact : Impact) (limit offset : Int) :
    PlsqlImpactPage :=
  let bounded := bounded_limit client.toNeo4jPlsqlAnalysisClient limit
  let bounded_offset := (max 0 offset).toNat
  { items := (impact.items.drop bounded_offset).take bounded,
    truncated := bounded_offset + bounded < impact.items.length, total := impact.items.length,
    summary := impact.summary }

/-- The changed object of a sound cache is the one its name stands for. -/
theorem SoundCaches.first_record {object_id : String} {record : PlsqlObjectRecord}
    (h : SoundCaches env client db s)
    (hlookup : s.object_cache.lookup object_id = some (some record)) :
    plsql.first_record client db record.qualified_name = some record :=
  h.objects object_id record hlookup

theorem impact_of_progresses (object_id : String) :
    Guarantees (Progress env client db)
      (impact_of env client db moment object_id max_hops limit direction relationships offset) := by
  intro s hsound
  unfold impact_of
  rw [run_bind]
  have hlearns := @require_object_learns client db object_id s
  cases hrequire : (Reads.require_object client db object_id).run.run s with
  | mk found s₁ =>
    rw [hrequire] at hlearns
    obtain ⟨hsound₁, hgrows₁⟩ := hlearns.progress hsound
    cases found with
    | error e => exact ⟨hsound₁, hgrows₁⟩
    | ok changed =>
      have hchanged := hsound₁.first_record (require_object_again hrequire)
      have htraversal := (@impact_traversal_run env client db changed
        (bounded_hops client.toNeo4jPlsqlAnalysisClient max_hops) direction
        (relationships.getD PATH_RELATIONSHIPS) moment hchanged s₁).1
      have hprogress := (@Learns.progress env _ _ _ _ hlearns).trans htraversal
      simp only
      rw [run_bind]
      cases himpact : (impact_traversal env client db moment changed
          (bounded_hops client.toNeo4jPlsqlAnalysisClient max_hops) direction
          (relationships.getD PATH_RELATIONSHIPS)).run.run s₁ with
      | mk found s₂ =>
        rw [himpact] at hprogress
        cases found with
        | error e => exact hprogress hsound
        | ok impact => exact hprogress hsound

end Impact

/-- Sound caches stay sound, and no object leaves them. -/
theorem progress_rule : CacheRule env client db (Progress env client db) where
  refl := .refl
  trans _ _ _ := .trans
  get_object object_id s := (get_object_learns object_id s).progress
  impact_of _ object_id _ _ _ _ _ := impact_of_progresses object_id

theorem state_after_progress (s : ClientState) (requests : List (Moment × Request)) :
    Progress env client db s (state_after env client db s requests) :=
  progress_rule.state_after s requests

/-- The caches of a client are sound whatever it has been asked. -/
theorem soundCaches_state_after (requests : List (Moment × Request)) :
    SoundCaches env client db (state_after env client db .init requests) :=
  (state_after_progress .init requests soundCaches_init).1

end lagraph.plsql
