import LaGraph.Agent.Answers
import LaGraph.Conversations.Pruning
import LaGraph.Foundation.Budgets

open foundation foundation.budgets

namespace lagraph.conversations

def Role.turn_role : Role → agent.Role
  | .user => .user
  | .assistant => .assistant

/-- A message as a turn that the workflow accepts: the texts are stripped and neither empty
nor too long. -/
def conversation_turn (space : Spaces) (message : Message) : Option agent.ConversationTurn :=
  let id := strip space message.id
  let content := strip space message.content
  if 1 ≤ id.length ∧ id.length ≤ 128 ∧ 1 ≤ content.length ∧ content.length ≤ 100000 then
    some ⟨id, message.role.turn_role, content⟩
  else none

/-- The last exchanges without the latest ones that are too long by themselves. -/
def recent_exchanges (max_turns max_chars : Nat) (messages : List Message) :
    List (Message × Message) :=
  ((complete_exchanges none messages).rtake max_turns).rdropWhile
    fun exchange => max_chars < exchange_chars exchange

/-- The messages of exchanges. -/
def spoken (exchanges : List (Message × Message)) : List Message :=
  exchanges.flatMap fun exchange => [exchange.1, exchange.2]

/-- A turn as the model may see it. -/
def cleaned (rules : agent.TextRules) (turn : agent.ConversationTurn) : agent.ConversationTurn :=
  { turn with content := agent.sanitized_content rules turn.content }

section Selected

variable {max_chars used_chars : Nat} {selected exchanges : List (Message × Message)}

/-- Behind a first exchange, those are selected that fit in the rest. -/
theorem select_exchanges_within (hselected : selected ≠ []) (hused : used_chars ≤ max_chars) :
    select_exchanges max_chars selected used_chars exchanges =
      (takeWithin exchange_chars (max_chars - used_chars) exchanges).reverse ++ selected := by
  induction exchanges generalizing selected used_chars with
  | nil => rfl
  | cons exchange exchanges ih =>
    by_cases hfits : used_chars + exchange_chars exchange ≤ max_chars
    · rw [select_exchanges, if_neg (by omega), if_neg (by omega),
        ih (List.cons_ne_nil exchange selected) hfits, takeWithin, if_pos (by omega),
        List.reverse_cons, List.append_assoc, Nat.sub_add_eq]
      rfl
    · rw [select_exchanges, if_pos ⟨hselected, by omega⟩, takeWithin, if_neg (by omega)]
      rfl

/-- The selection skips what is too long by itself and takes what fits from there on. -/
theorem select_exchanges_eq :
    select_exchanges max_chars [] 0 exchanges =
      (takeWithin exchange_chars max_chars
        (exchanges.dropWhile fun exchange => max_chars < exchange_chars exchange)).reverse := by
  induction exchanges with
  | nil => rfl
  | cons exchange exchanges ih =>
    by_cases hlong : max_chars < exchange_chars exchange
    · rw [select_exchanges, if_neg (fun h => h.1 rfl), if_pos hlong, ih,
        List.dropWhile_cons_of_pos (by simpa using hlong)]
    · rw [select_exchanges, if_neg (fun h => h.1 rfl), if_neg hlong,
        List.dropWhile_cons_of_neg (by simpa using hlong), takeWithin, if_pos (by omega),
        List.reverse_cons, Nat.zero_add,
        select_exchanges_within (List.cons_ne_nil exchange []) (by omega)]

/-- The history is the longest block of whole exchanges that ends with the latest one that
is not too long by itself. -/
theorem history_block {messages : List Message} {max_turns : Nat} (hturns : 1 ≤ max_turns) :
    ∃ block, LongestWithin exchange_chars max_chars (recent_exchanges max_turns max_chars messages)
        block ∧ history messages max_turns max_chars = spoken block := by
  refine ⟨_, longestWithin_takeWithin, ?_⟩
  rw [history, last_turns, if_neg (by omega), select_exchanges_eq, recent_exchanges, List.rtake,
    List.rdropWhile, List.reverse_reverse, spoken]

theorem length_spoken : (spoken exchanges).length = 2 * exchanges.length := by
  induction exchanges with
  | nil => rfl
  | cons exchange exchanges ih =>
    rw [spoken, List.flatMap_cons, List.length_append, ← spoken, ih]
    simp only [List.length_cons, List.length_nil]
    omega

theorem total_spoken :
    total (fun message : Message => message.content.length) (spoken exchanges) =
      total exchange_chars exchanges := by
  induction exchanges with
  | nil => rfl
  | cons exchange exchanges ih =>
    have hcons : spoken (exchange :: exchanges) =
        exchange.1 :: exchange.2 :: spoken exchanges := rfl
    rw [hcons, total_cons, total_cons, total_cons, ih, exchange_chars]
    omega

theorem length_recent_exchanges_le {messages : List Message} {max_turns : Nat} :
    (recent_exchanges max_turns max_chars messages).length ≤ max_turns := by
  have hinitial := (List.rdropWhile_prefix (fun exchange => max_chars < exchange_chars exchange)
    (l := (complete_exchanges none messages).rtake max_turns)).length_le
  have htake : ((complete_exchanges none messages).rtake max_turns).length ≤ max_turns := by
    rw [List.rtake, List.length_drop]
    omega
  exact hinitial.trans htake

end Selected

section Sanitized

variable {rules : agent.TextRules} {space : Spaces} {turns : List agent.ConversationTurn}

theorem length_strip_le {text : String} : (strip space text).length ≤ text.length := by
  rw [strip, String.length_ofList, List.length_reverse]
  have houter := (List.dropWhile_suffix space
    (l := (text.toList.dropWhile space).reverse)).length_le
  have hinner := (List.dropWhile_suffix space (l := text.toList)).length_le
  rw [List.length_reverse] at houter
  exact houter.trans hinner

theorem length_sanitized_content_le (hstrip : ∀ text, rules.strip text = strip space text)
    {content : String} : (agent.sanitized_content rules content).length ≤ content.length := by
  rw [agent.sanitized_content, hstrip]
  refine length_strip_le.trans ?_
  rw [String.length_ofList, List.length_map]
  exact le_refl _

theorem sanitized_content_nil (hstrip : ∀ text, rules.strip text = strip space text)
    {content : String} (h : content.length = 0) : agent.sanitized_content rules content = "" := by
  have hlength := @length_sanitized_content_le rules space hstrip content
  rw [h] at hlength
  exact String.length_eq_zero_iff.mp (Nat.le_zero.mp hlength)

/-- Where no characters are left, nothing is left of a turn. -/
theorem filter_cleaned_nil (hstrip : ∀ text, rules.strip text = strip space text)
    (h : total (fun turn : agent.ConversationTurn => turn.content.length) turns = 0) :
    (turns.map (cleaned rules)).filter (·.content ≠ "") = [] := by
  rw [List.filter_eq_nil_iff]
  intro turn hturn
  obtain ⟨raw, hraw, rfl⟩ := List.mem_map.mp hturn
  have hlength : raw.content.length = 0 :=
    List.sum_eq_zero_iff_forall_eq_nat.mp h _ (List.mem_map_of_mem hraw)
  simp [cleaned, sanitized_content_nil hstrip hlength]

/-- Turns that fit in the characters are kept as they are, unless nothing is left of one. -/
theorem bounded_turns_eq (hstrip : ∀ text, rules.strip text = strip space text)
    {remaining : Nat}
    (hfits : total (fun turn : agent.ConversationTurn => turn.content.length) turns ≤ remaining) :
    agent.bounded_turns rules remaining turns =
      (turns.map (cleaned rules)).filter (·.content ≠ "") := by
  induction turns generalizing remaining with
  | nil => rfl
  | cons turn turns ih =>
    have hlength := @length_sanitized_content_le rules space hstrip turn.content
    rw [total_cons] at hfits
    rw [agent.bounded_turns, List.map_cons]
    by_cases hempty : agent.sanitized_content rules turn.content = ""
    · rw [if_pos hempty, ih (by omega), List.filter_cons_of_neg (by simp [cleaned, hempty])]
    · have hkept : String.ofList
          ((agent.sanitized_content rules turn.content).toList.take remaining) =
            agent.sanitized_content rules turn.content := by
        rw [List.take_of_length_le (by rw [String.length_toList]; omega), String.ofList_toList]
      rw [if_neg hempty, hkept, List.filter_cons_of_pos (by simp [cleaned, hempty])]
      dsimp only
      rw [if_neg hempty]
      by_cases hfull : remaining ≤ (agent.sanitized_content rules turn.content).length
      · rw [if_pos hfull, filter_cleaned_nil hstrip (by omega)]
        rfl
      · rw [if_neg hfull, ih (by omega)]
        rfl

end Sanitized

theorem conversation_turn_content {space : Spaces} {message : Message}
    {turn : agent.ConversationTurn} (h : conversation_turn space message = some turn) :
    turn.content.length ≤ message.content.length := by
  rw [conversation_turn] at h
  split_ifs at h
  obtain rfl := Option.some.inj h
  exact length_strip_le

theorem total_turns_le {space : Spaces} {messages : List Message}
    {turns : List agent.ConversationTurn}
    (h : messages.mapM (conversation_turn space) = some turns) :
    turns.length = messages.length ∧
      total (fun turn : agent.ConversationTurn => turn.content.length) turns ≤
        total (fun message : Message => message.content.length) messages := by
  induction messages generalizing turns with
  | nil =>
    obtain rfl := Option.some.inj h
    exact ⟨rfl, le_refl _⟩
  | cons message messages ih =>
    rw [List.mapM_cons, Option.bind_eq_bind, Option.bind_eq_some_iff] at h
    obtain ⟨turn, hturn, hrest⟩ := h
    rw [Option.bind_eq_bind, Option.bind_eq_some_iff] at hrest
    obtain ⟨others, hothers, hcons⟩ := hrest
    obtain rfl := Option.some.inj hcons
    obtain ⟨hcount, htotal⟩ := ih hothers
    have hlength := conversation_turn_content hturn
    rw [total_cons, total_cons, List.length_cons, List.length_cons, hcount]
    exact ⟨rfl, by omega⟩

end lagraph.conversations
