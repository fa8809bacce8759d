import LaGraph.Foundation.Guarantees
import LaGraph.Foundation.Runs
import LaGraph.Graphify.Client

open foundation foundation.Stateful
open lagraph.agent (GraphNode GraphEdge)
open lagraph.plsql (splitlines)

namespace lagraph.graphify

variable {config : GraphifyMCPConfig} {libraries : Libraries} {s s' s'' : ClientState}
  {id label : String}

/-- The client has registered the label under the identifier. -/
def Named (s : ClientState) (id label : String) : Prop :=
  s.native_labels.lookup id = some label

/-- What is registered stays so. -/
def Extends (s s' : ClientState) : Prop :=
  ∀ id label, Named s id label → Named s' id label

theorem Extends.refl (s : ClientState) : Extends s s :=
  fun _ _ h => h

theorem Extends.trans (h : Extends s s') (h' : Extends s' s'') : Extends s s'' :=
  fun id label hnamed => h' id label (h id label hnamed)

section Registration

/-- No other label has the identifier of this one. -/
def Free (libraries : Libraries) (s : ClientState) (label : String) : Prop :=
  ∀ other, Named s (node_id libraries (strip label)) other → other = strip label

def registered (libraries : Libraries) (s : ClientState) (label : String) : ClientState :=
  { s with native_labels :=
      s.native_labels.put (node_id libraries (strip label)) (strip label) }

def collision : Failure :=
  .GraphifyError .invalid_response "Graphify node identifier collision detected"

theorem run_register (h : Free libraries s label) :
    (register_native_label libraries label).run.run s =
      (.ok (node_id libraries (strip label)), registered libraries s label) := by
  have hnone : (s.native_labels.lookup (node_id libraries (strip label))).filter
      (· ≠ strip label) = none := by
    rw [Option.filter_eq_none_iff]
    intro other hother
    simpa using h other hother
  rw [register_native_label, run_bind_ok (run_get s), hnone]
  rfl

theorem run_register_collision (h : ¬Free libraries s label) :
    (register_native_label libraries label).run.run s = (.error collision, s) := by
  unfold Free at h
  push Not at h
  obtain ⟨other, hother, hne⟩ := h
  have hsome : (s.native_labels.lookup (node_id libraries (strip label))).filter
      (· ≠ strip label) = some other := by
    rw [Option.filter_eq_some_iff]
    exact ⟨hother, by simpa using hne⟩
  rw [register_native_label, run_bind_ok (run_get s), hsome]
  rfl

theorem named_registered {other : String} : Named (registered libraries s label) id other ↔
    if id = node_id libraries (strip label) then other = strip label else Named s id other := by
  rw [registered, Named, Dictionary.lookup_put]
  split
  · rw [Option.some.injEq, eq_comm]
  · rfl

theorem registered_extends (h : Free libraries s label) :
    Extends s (registered libraries s label) := by
  intro id other hnamed
  rw [named_registered]
  split
  · rename_i hid
    exact h other (hid ▸ hnamed)
  · exact hnamed

/-- What a registration that returns has done. -/
theorem of_run_register_ok
    (h : (register_native_label libraries label).run.run s = (.ok id, s')) :
    id = node_id libraries (strip label) ∧ Named s' id (strip label) := by
  by_cases hfree : Free libraries s label
  · rw [run_register hfree] at h
    cases h
    exact ⟨rfl, named_registered.mpr (by rw [if_pos rfl])⟩
  · rw [run_register_collision hfree] at h
    cases h

theorem of_run_register_error {failure : Failure}
    (h : (register_native_label libraries label).run.run s = (.error failure, s')) :
    failure = collision := by
  by_cases hfree : Free libraries s label
  · rw [run_register hfree] at h
    cases h
  · rw [run_register_collision hfree] at h
    cases h
    rfl

theorem register_extends (label : String) :
    Guarantees Extends (register_native_label libraries label) := by
  intro s
  by_cases hfree : Free libraries s label
  · rw [run_register hfree]
    exact registered_extends hfree
  · rw [run_register_collision hfree]
    exact .refl s

end Registration

section Extends

theorem throw_extends {α : Type} (failure : Failure) :
    Guarantees Extends (throw failure : Client α) :=
  .throw Extends.refl failure

theorem pure_extends {α : Type} (a : α) : Guarantees Extends (pure a : Client α) :=
  .pure Extends.refl a

theorem bind_extends {α β : Type} {m : Client α} {f : α → Client β} (hm : Guarantees Extends m)
    (hf : ∀ a, Guarantees Extends (f a)) : Guarantees Extends (m >>= f) :=
  .bind (fun _ _ _ => .trans) hm hf

theorem real_text_extends (payload : Payload) : Guarantees Extends (real_text payload) := by
  unfold real_text
  split
  · exact pure_extends _
  · exact throw_extends _

theorem validate_extends (nodes : List GraphNode) (edges : List GraphEdge) :
    Guarantees Extends (validate_graph_limits config nodes edges) := by
  unfold validate_graph_limits
  split
  · exact throw_extends _
  · exact pure_extends _

theorem parse_extends {α : Type} (valid : α → Bool) (raw : α) (label : String) :
    Guarantees Extends (parse valid raw label) := by
  unfold parse
  split
  · exact pure_extends _
  · exact throw_extends _

theorem mention_extends (nodes : Dictionary String GraphNode) (label : String) :
    Guarantees Extends (mention libraries nodes label) :=
  bind_extends (register_extends label) fun _ => pure_extends _

theorem search_line_extends (found : Found) (line : String) :
    Guarantees Extends (search_line libraries found line) := by
  unfold search_line
  split
  · exact bind_extends (register_extends _) fun _ => pure_extends _
  · split
    · exact bind_extends (mention_extends _ _) fun _ => bind_extends (mention_extends _ _)
        fun _ => pure_extends _
    · exact pure_extends _

theorem search_extends (payload : Payload) :
    Guarantees Extends (normalize_real_search config libraries payload) := by
  refine bind_extends (real_text_extends payload) fun text => ?_
  split
  · exact pure_extends _
  · refine bind_extends (.foldlM Extends.refl (fun _ _ _ => .trans) search_line_extends _ _)
      fun found => ?_
    obtain ⟨nodes, edges⟩ := found
    dsimp only
    split
    · exact throw_extends _
    · exact bind_extends (validate_extends _ _) fun _ => parse_extends _ _ _

theorem node_extends (payload : Payload) :
    Guarantees Extends (normalize_real_node libraries payload) := by
  refine bind_extends (real_text_extends payload) fun text => ?_
  refine bind_extends (.foldlM Extends.refl (fun _ _ _ => .trans) (fun fields line => ?_) _ _)
    fun fields => ?_
  · split
    · exact pure_extends _
    · exact throw_extends _
  · dsimp only
    split
    · exact throw_extends _
    · exact bind_extends (register_extends _) fun _ => pure_extends _

theorem neighbor_node_extends (label : String) :
    Guarantees Extends (neighbor_node libraries label) := by
  refine bind_extends (register_extends label) fun _ => ?_
  split
  · exact throw_extends _
  · exact pure_extends _

theorem neighbor_line_extends (center : String) (found : Found) (line : String) :
    Guarantees Extends (neighbor_line libraries center found line) := by
  unfold neighbor_line
  split
  · exact pure_extends _
  · exact bind_extends (neighbor_node_extends _) fun _ => pure_extends _

theorem neighbors_extends (payload : Payload) :
    Guarantees Extends (normalize_real_neighbors config libraries payload) := by
  refine bind_extends (real_text_extends payload) fun text => ?_
  split
  · exact pure_extends _
  · refine bind_extends (neighbor_node_extends _) fun node => ?_
    refine bind_extends
      (.foldlM Extends.refl (fun _ _ _ => .trans) (neighbor_line_extends _) _ _) fun found => ?_
    exact bind_extends (validate_extends _ _) fun _ => parse_extends _ _ _

theorem path_extends (payload : Payload) :
    Guarantees Extends (normalize_real_path libraries payload) := by
  refine bind_extends (real_text_extends payload) fun text => ?_
  split
  · exact throw_extends _
  · dsimp only
    split
    · exact throw_extends _
    · exact bind_extends (.mapM Extends.refl (fun _ _ _ => .trans) register_extends _)
        fun _ => pure_extends _

theorem normalize_extends (operation : Operation) (payload : Payload) :
    Guarantees Extends (normalize config libraries operation payload) := by
  cases operation with
  | search _ => exact (search_extends payload).map _
  | get_node _ => exact (node_extends payload).map _
  | get_neighbors _ _ => exact (neighbors_extends payload).map _
  | shortest_path _ _ => exact (path_extends payload).map _

theorem bounded_extends (value label : String) (maximum : Nat) :
    Guarantees Extends (bounded_text value label maximum) := by
  unfold bounded_text
  split
  · exact throw_extends _
  · split
    · exact throw_extends _
    · exact pure_extends _

theorem get_extends : Guarantees Extends (get : Client ClientState) :=
  fun s => .refl s

theorem native_extends (value : String) : Guarantees Extends (native_label value) := by
  unfold native_label
  split
  · exact pure_extends _
  · refine bind_extends get_extends fun state => ?_
    split
    · exact pure_extends _
    · exact throw_extends _

theorem request_extends (operation : Operation) : Guarantees Extends (request config operation) := by
  cases operation with
  | search query => exact bind_extends (bounded_extends _ _ _) fun _ => pure_extends _
  | get_node node_id =>
    exact bind_extends (bounded_extends _ _ _) fun _ => bind_extends (native_extends _)
      fun _ => pure_extends _
  | get_neighbors node_id depth =>
    refine bind_extends (bounded_extends _ _ _) fun _ => bind_extends (native_extends _) fun _ => ?_
    split
    · exact throw_extends _
    · exact pure_extends _
  | shortest_path source target =>
    exact bind_extends (bounded_extends _ _ _) fun _ => bind_extends (bounded_extends _ _ _)
      fun _ => bind_extends (native_extends _) fun _ => bind_extends (native_extends _)
        fun _ => pure_extends _

theorem decode_extends (blocks : Option (List (Option String))) :
    Guarantees Extends (decode_content config libraries blocks) := by
  unfold decode_content
  split
  · exact throw_extends _
  split
  · exact throw_extends _
  dsimp only
  split
  · exact throw_extends _
  split
  · exact pure_extends _
  · exact throw_extends _
  · split
    · split
      · exact pure_extends _
      · exact throw_extends _
    · exact throw_extends _

theorem invoke_extends (server : ToolCall → ToolOutcome) (call : ToolCall) :
    Guarantees Extends (invoke config libraries server call) := by
  have hcounted (s : ClientState) : Extends s { s with calls := s.calls + 1 } := .refl s
  have hrest (m : Client Payload) (hm : Guarantees Extends m) (s : ClientState) :
      Extends s ((do
        set { s with calls := s.calls + 1 }
        m : Client Payload).run.run s).2 :=
    (hcounted s).trans (hm { s with calls := s.calls + 1 })
  intro s
  rw [invoke, run_bind_ok (run_get s)]
  apply hrest
  split
  · exact throw_extends _
  · split
    · exact throw_extends _
    · exact throw_extends _
    · exact throw_extends _
    · exact throw_extends _
    · exact throw_extends _
    · exact decode_extends _

theorem perform_extends (server : ToolCall → ToolOutcome) (operation : Operation) :
    Guarantees Extends (perform config libraries server operation) :=
  bind_extends (request_extends operation) fun call => bind_extends (invoke_extends server call)
    fun payload => normalize_extends operation payload

end Extends

end lagraph.graphify
