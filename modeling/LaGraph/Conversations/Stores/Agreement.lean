import LaGraph.Conversations.Stores

open foundation foundation.pairing foundation.duplicates

namespace lagraph.conversations

section Agreement

variable {settings : StoreSettings} {space : Spaces} {now : Nat} {db db' : Database}
  {store : InMemoryStore} {row : ConversationRow} {conversation_id created_by : String}

section Exchanges

variable {max_turns : Nat} {message : Message}

/-- A name shown is the default exactly when there is none. -/
theorem shown_eq_iff (h : Proper row.name) :
    row.summary.name = NEW_CONVERSATION ↔ row.name = none := by
  unfold ConversationRow.summary
  dsimp only
  cases hname : row.name with
  | none => exact iff_of_true rfl rfl
  | some name =>
    rw [hname] at h
    have hne : name ≠ "" := fun heq => h.1 (congrArg some heq)
    dsimp only
    rw [if_neg hne]
    exact iff_of_false (fun heq => h.2 (congrArg some heq)) (Option.some_ne_none name)

theorem shown_of_proper {name : String} (h : Proper (some name)) (hname : row.name = some name) :
    row.summary.name = name := by
  unfold ConversationRow.summary
  dsimp only
  rw [hname]
  exact if_neg fun heq => h.1 (congrArg some heq)

/-- Pruning one conversation leaves the others. -/
theorem messages_of_prune_other (hs : db.Sound) {other : String} (hne : other ≠ conversation_id) :
    (db.prune max_turns conversation_id).messages_of other = db.messages_of other := by
  rw [Database.prune]
  dsimp only
  split
  · rfl
  · refine messages_of_filter.trans (List.filter_eq_self.mpr fun kept hkept => ?_)
    rw [decide_eq_true_eq, complete_exchange_row_ids_eq]
    intro hremoved
    obtain ⟨pair, hpair, hid⟩ := List.mem_flatMap.mp hremoved
    obtain ⟨found, hfound, rfl⟩ := List.mem_map.mp (List.mem_of_mem_take hpair)
    obtain ⟨hfirst, hsecond⟩ := mem_of_mem_pairs hfound
    rw [Option.toList_none, List.nil_append] at hfirst
    rw [messages_of_eq hs, List.mem_filter, decide_eq_true_eq] at hkept hfirst hsecond
    rw [List.mem_cons, List.mem_singleton] at hid
    -- a row that is removed belongs to the conversation that is pruned
    have hplace {row' : MessageRow}
        (hrow' : row' ∈ db.messages ∧ row'.conversation_id = conversation_id)
        (hsame : kept.row_id = row'.row_id) : False := by
      have heq := List.inj_on_of_nodup_map hs.row_ids hkept.1 hrow'.1 hsame
      exact hne (hkept.2.symm.trans (heq ▸ hrow'.2))
    exact hid.elim (hplace hfirst) (hplace hsecond)

/-- Both stores prune the same messages. -/
theorem pruned_messages (hs : db.Sound) :
    ((db.prune max_turns conversation_id).messages_of conversation_id).map (·.message) =
      prune_messages max_turns ((db.messages_of conversation_id).map (·.message)) := by
  have hids : (((db.messages_of conversation_id).map (·.message)).map (·.id)).Nodup := by
    rw [messages_of_eq hs, List.map_map]
    exact hs.message_ids.sublist (List.filter_sublist.map _)
  have hpairs := @pairs_map _ Message.turn _ (fun row : MessageRow => row.message) none
    (db.messages_of conversation_id)
  have hwithout := @without_map _ Message.turn _ (fun row : MessageRow => row.message) none []
  rw [Option.map_none] at hpairs
  rw [prune_messages_eq hids, messages_of_prune hs.row_ids, hpairs, List.length_map]
  exact (hwithout _ _).symm

theorem Database.Sound.prune (hs : db.Sound) (max_turns : Nat) (conversation_id : String) :
    (db.prune max_turns conversation_id).Sound := by
  rw [Database.prune]
  dsimp only
  split
  · exact hs
  · exact hs.sublist (.refl _) List.filter_sublist rfl fun message hmessage =>
      hs.placed message (List.mem_of_mem_filter hmessage)

theorem alike_prune (hs : db.Sound) (hm : Mirrors db store) (hrow : row ∈ db.rows) :
    ∃ store', store.prune settings row.id = .ok store' ∧
      Mirrors (db.prune settings.max_turns row.id) store' := by
  have hfound : store.items.lookup row.id = some (db.conversation row) := by
    have hfind : db.rows.find? (·.id = row.id) = some row := find?_of_nodup hs.ids hrow
    rw [hm.items, Dictionary.lookup_keyed, hfind]
    rfl
  have hrows : (db.prune settings.max_turns row.id).rows = db.rows := by
    rw [Database.prune]
    dsimp only
    split <;> rfl
  have hput := @Mirrors.put db (db.prune settings.max_turns row.id) store row id hs hm hrow
    (hrows.trans db.rows.map_id.symm) (fun r _ => ⟨rfl, rfl, rfl, rfl⟩) (fun r _ hne => by
      rw [id, Database.conversation, messages_of_prune_other hs hne]
      rfl)
  refine ⟨_, ?_, hput⟩
  rw [InMemoryStore.prune, hfound]
  dsimp only
  rw [id, Database.conversation, Database.conversation, pruned_messages hs]

theorem Database.Sound.add (hs : db.Sound) (hplace : conversation_id ∈ db.rows.map (·.id))
    (hnew : message.id ∉ db.messages.map (·.message.id)) :
    (db.add message conversation_id).Sound where
  ids := hs.ids
  names := hs.names
  leases := hs.leases
  row_ids := by
    rw [Database.add, List.map_append, List.nodup_append]
    refine ⟨hs.row_ids, List.nodup_singleton _, fun id hid other hother heq => ?_⟩
    obtain ⟨row, hrow, rfl⟩ := List.mem_map.mp hid
    rw [List.map_singleton, List.mem_singleton] at hother
    exact (hs.numbered row hrow).ne (heq.trans hother)
  numbered := List.forall_mem_append.mpr
    ⟨fun row hrow => (hs.numbered row hrow).trans (Nat.lt_succ_self _),
      List.forall_mem_singleton.mpr (Nat.lt_succ_self _)⟩
  message_ids := by
    rw [Database.add, List.map_append, List.nodup_append]
    refine ⟨hs.message_ids, List.nodup_singleton _, fun id hid other hother heq => ?_⟩
    rw [List.map_singleton, List.mem_singleton] at hother
    exact hnew (hother ▸ heq ▸ hid)
  placed := List.forall_mem_append.mpr ⟨hs.placed, List.forall_mem_singleton.mpr hplace⟩
  ordered id := by
    rw [Database.add, List.filter_append]
    refine List.pairwise_append.mpr ⟨hs.ordered id, ?_, fun old hold new hnew' => ?_⟩
    · exact (List.pairwise_singleton _ _).sublist List.filter_sublist
    · obtain ⟨hsame, hid⟩ := List.mem_filter.mp hnew'
      rw [List.mem_singleton] at hsame
      subst hsame
      have hid' : conversation_id = id := of_decide_eq_true hid
      subst hid'
      exact Nat.lt_succ_of_le (le_foldr_max (List.mem_map_of_mem hold))

theorem messages_of_add (hs : db.Sound) (hadd : (db.add message conversation_id).Sound)
    (other : String) :
    ((db.add message conversation_id).messages_of other).map (·.message) =
      (db.messages_of other).map (·.message) ++
        if conversation_id = other then [message] else [] := by
  rw [messages_of_eq hs, messages_of_eq hadd, Database.add, List.filter_append, List.map_append]
  by_cases hsame : conversation_id = other
  · rw [if_pos hsame, List.filter_cons, if_pos (decide_eq_true hsame)]
    rfl
  · rw [if_neg hsame, List.filter_cons, if_neg (by simpa using hsame)]
    rfl

/-- A message is appended to the same conversation in both stores. -/
theorem alike_append (hs : db.Sound) (hm : Mirrors db store)
    (hnew : message.id ∉ db.messages.map (·.message.id))
    (hname : message.role = .user → Proper (some (derive_name space message.content))) :
    (∃ e, db.append space message conversation_id created_by = .error e ∧
        store.append space message conversation_id created_by = .error e) ∨
      ∃ db' store', db.append space message conversation_id created_by = .ok db' ∧
        store.append space message conversation_id created_by = .ok store' ∧
        db'.Sound ∧ Mirrors db' store' ∧ ∃ row ∈ db'.rows, row.id = conversation_id := by
  have howned := @owned_eq db store conversation_id created_by hs hm true
  unfold Database.append InMemoryStore.append
  rw [howned]
  cases hget : db.get_row conversation_id created_by true with
  | error e => exact Or.inl ⟨e, rfl, rfl⟩
  | ok row =>
    obtain ⟨hrow, rfl⟩ := mem_of_get_row hget
    have hnaming : Proper (message.naming space row).name := by
      unfold Message.naming
      dsimp only
      split
      · rename_i hdefault
        exact hname hdefault.1
      · exact hs.names row hrow
    have hupdate := (@alike_update db store row (message.naming space) hs hm hrow
      (fun _ => ⟨rfl, rfl, rfl, rfl, rfl⟩) hnaming).1
    have hids : (db.update row.id (message.naming space)).rows.map (·.id) = db.rows.map (·.id) := by
      rw [Database.update, List.map_map]
      refine List.map_congr_left fun r _ => ?_
      rw [Function.comp]
      split <;> rfl
    have hadd := @Database.Sound.add (db.update row.id (message.naming space)) row.id message
      hupdate (hids ▸ List.mem_map_of_mem hrow) hnew
    have hmessages := @messages_of_add (db.update row.id (message.naming space)) row.id message
      hupdate hadd
    refine Or.inr ⟨_, _, rfl, rfl, hadd, ?_, ?_⟩
    · have hput := @Mirrors.put db ((db.update row.id (message.naming space)).add message row.id)
        store row (fun r => if r.id = row.id then message.naming space r else r) hs hm hrow rfl
        (fun r _ => by split <;> exact ⟨rfl, rfl, rfl, rfl⟩)
        (fun r _ hne => by
          rw [if_neg hne, Database.conversation, hmessages, if_neg (Ne.symm hne), List.append_nil]
          rfl)
      rw [if_pos rfl] at hput
      have hitem : ((db.update row.id (message.naming space)).add message row.id).conversation
          (message.naming space row) =
            { db.conversation row with
              messages := (db.conversation row).messages ++ [message],
              updated_at := message.created_at,
              name := if message.role = .user ∧ (db.conversation row).name = NEW_CONVERSATION then
                derive_name space message.content else (db.conversation row).name } := by
        have htitle : (message.naming space row).summary.name =
            if message.role = .user ∧ row.summary.name = NEW_CONVERSATION then
              derive_name space message.content else row.summary.name := by
          rw [if_congr (and_congr_right' (shown_eq_iff (hs.names row hrow))) rfl rfl]
          by_cases hdefault : message.role = .user ∧ row.name = none
          · rw [if_pos hdefault]
            refine shown_of_proper (hname hdefault.1) ?_
            unfold Message.naming
            exact if_pos hdefault
          · rw [if_neg hdefault]
            unfold Message.naming ConversationRow.summary
            dsimp only
            rw [if_neg hdefault]
        have hlist := hmessages row.id
        rw [if_pos rfl] at hlist
        rw [Database.conversation, htitle]
        exact congrArg (Conversation.mk _ _ _ _ _ _) hlist
      rw [hitem] at hput
      exact hput
    · refine ⟨message.naming space row, ?_, rfl⟩
      refine List.mem_map.mpr ⟨row, hrow, if_pos rfl⟩

end Exchanges

section LeaseChanges

theorem acquirable_iff (hlease : row.active_request_id.isSome = row.lease_expires_at.isSome)
    (request_id : String) : row.acquirable request_id now = true ↔
      row.lease.filter (fun lease => lease.1 ≠ request_id && now < lease.2) = none := by
  unfold ConversationRow.acquirable ConversationRow.lease
  cases hactive : row.active_request_id with
  | none => simp
  | some active =>
    cases hexpires : row.lease_expires_at with
    | none =>
      rw [hactive, hexpires] at hlease
      cases hlease
    | some expires_at =>
      by_cases hsame : active = request_id
      · simp [hsame, Option.filter_some]
      · simp [hsame, Option.filter_some]

/-- A condition on the one row that is chosen. -/
theorem any_chosen (hs : db.Sound) (hrow : row ∈ db.rows) {chosen : ConversationRow → Bool}
    (hchosen : chosen row = true) (hid : ∀ r, chosen r = true → r.id = row.id)
    (q : ConversationRow → Bool) : (db.rows.any fun r => chosen r && q r) = q row := by
  rw [Bool.eq_iff_iff, List.any_eq_true]
  constructor
  · rintro ⟨r, hr, hboth⟩
    rw [Bool.and_eq_true] at hboth
    rw [← row_eq_of_id hs hrow hr (hid r hboth.1)]
    exact hboth.2
  · intro hq
    exact ⟨row, hrow, Bool.and_eq_true_iff.mpr ⟨hchosen, hq⟩⟩

theorem any_of_none {chosen : ConversationRow → Bool} (hfind : db.rows.find? chosen = none)
    (q : ConversationRow → Bool) : (db.rows.any fun r => chosen r && q r) = false := by
  rw [List.any_eq_false]
  intro r hr hboth
  exact List.find?_eq_none.mp hfind r hr (Bool.and_eq_true_iff.mp hboth).1

theorem active_of_lease {lease : String × Nat} (h : row.lease = some lease) :
    row.active_request_id = some lease.1 := by
  unfold ConversationRow.lease at h
  split at h
  · rename_i hactive _
    cases h
    exact hactive
  · cases h

theorem Except.map_id_eq {ε α : Type} (x : Except ε α) : x = x.map id := by
  cases x <;> rfl

/-- A lease is acquired, or refused, alike by both stores. -/
theorem alike_acquire (hs : db.Sound) (hm : Mirrors db store) (request_id : String) :
    Alike (do
        let db ← db.acquire_request settings now conversation_id request_id created_by
        pure (StoreReply.done, db))
      (do
        let store ← store.acquire_request settings now conversation_id request_id created_by
        pure (StoreReply.done, store)) := by
  have howned := @owned_eq db store conversation_id created_by hs hm true
  unfold Database.acquire_request InMemoryStore.acquire_request
  rw [howned, Database.get_row]
  simp only [Bool.not_true, Bool.false_or]
  cases hfind : db.rows.find? fun row => row.id = conversation_id &&
      (row.created_by = created_by && row.archived_at.isNone) with
  | none =>
    rw [any_of_none hfind]
    exact rfl
  | some row =>
    have hrow := List.mem_of_find?_eq_some hfind
    have hchosen := List.find?_some hfind
    have hid : row.id = conversation_id := by
      rw [Bool.and_eq_true, decide_eq_true_eq] at hchosen
      exact hchosen.1
    have hkey : ∀ r : ConversationRow, (decide (r.id = conversation_id) &&
        (decide (r.created_by = created_by) && r.archived_at.isNone)) = true → r.id = row.id := by
      intro r hr
      rw [Bool.and_eq_true, decide_eq_true_eq] at hr
      exact hr.1.trans hid.symm
    have hany := any_chosen hs hrow hchosen hkey (·.acquirable request_id now)
    have hlease := hm.leases row hrow
    have hiff := @acquirable_iff now row (hs.leases row hrow) request_id
    rw [hid] at hlease
    rw [hany, hlease]
    by_cases hacquirable : row.acquirable request_id now = true
    · rw [if_pos hacquirable, hiff.mp hacquirable]
      refine ⟨rfl, alike_leases hs hm (fun r => ?_) (fun r hr => ?_) (fun r hr => ?_)
        fun id hid' => ?_⟩
      · split <;> exact ⟨rfl, rfl, rfl, rfl⟩
      · split
        · rfl
        · exact hs.leases r hr
      · rw [Dictionary.lookup_put]
        by_cases hsame : r.id = conversation_id
        · have heq := row_eq_of_id hs hrow hr (hsame.trans hid.symm)
          subst heq
          rw [if_pos hsame, if_pos (Bool.and_eq_true_iff.mpr ⟨hchosen, hacquirable⟩)]
          rfl
        · rw [if_neg hsame, if_neg (by simp [hsame])]
          exact hm.leases r hr
      · rw [Dictionary.lookup_put] at hid'
        split at hid'
        · rename_i hsame
          rw [hsame, ← hid]
          exact List.mem_map_of_mem hrow
        · exact hm.known id hid'
    · have hsome : row.lease.filter (fun lease => lease.1 ≠ request_id && now < lease.2) ≠ none :=
        fun hnone => hacquirable (hiff.mpr hnone)
      obtain ⟨lease, hfilter⟩ := Option.ne_none_iff_exists'.mp hsome
      have hactive := active_of_lease (Option.filter_eq_some_iff.mp hfilter).1
      rw [if_neg hacquirable, hfilter, Option.bind_some, hactive]
      exact rfl

/-- A lease is released by its holder alike in both stores. -/
theorem alike_release (hs : db.Sound) (hm : Mirrors db store) (request_id : String) :
    Alike (do
        let db ← db.release_request conversation_id request_id created_by
        pure (StoreReply.done, db))
      (do
        let store ← store.release_request conversation_id request_id created_by
        pure (StoreReply.done, store)) := by
  have howned := @owned_eq db store conversation_id created_by hs hm false
  unfold Database.release_request InMemoryStore.release_request
  rw [howned, Database.get_row]
  simp only [Bool.not_false, Bool.true_or, Bool.and_true]
  cases hfind : db.rows.find? fun row =>
      row.id = conversation_id && row.created_by = created_by with
  | none =>
    have hany : (db.rows.any fun row => row.id = conversation_id && row.created_by = created_by) =
        false := List.any_eq_false.mpr (List.find?_eq_none.mp hfind)
    rw [any_of_none hfind, hany]
    exact rfl
  | some row =>
    have hrow := List.mem_of_find?_eq_some hfind
    have hchosen := List.find?_some hfind
    have hid : row.id = conversation_id := by
      rw [Bool.and_eq_true, decide_eq_true_eq] at hchosen
      exact hchosen.1
    have hkey : ∀ r : ConversationRow, (decide (r.id = conversation_id) &&
        decide (r.created_by = created_by)) = true → r.id = row.id := by
      intro r hr
      rw [Bool.and_eq_true, decide_eq_true_eq] at hr
      exact hr.1.trans hid.symm
    have hheld := any_chosen hs hrow hchosen hkey (·.active_request_id = some request_id)
    have hany : (db.rows.any fun row => row.id = conversation_id && row.created_by = created_by) =
        true := List.any_eq_true.mpr ⟨row, hrow, hchosen⟩
    have hlease := hm.leases row hrow
    rw [hid] at hlease
    rw [hheld, hany, hlease]
    have hpair := hs.leases row hrow
    by_cases hactive : row.active_request_id = some request_id
    · rw [hactive] at hpair
      obtain ⟨expires_at, hexpires⟩ := Option.isSome_iff_exists.mp hpair.symm
      have hfilter : row.lease.filter (fun lease => lease.1 = request_id) =
          some (request_id, expires_at) := by
        rw [ConversationRow.lease, hactive, hexpires]
        exact Option.filter_some_pos (decide_eq_true rfl)
      rw [if_pos (decide_eq_true hactive), hfilter]
      refine ⟨rfl, alike_leases hs hm (fun r => ?_) (fun r hr => ?_) (fun r hr => ?_)
        fun id hid' => ?_⟩
      · split <;> exact ⟨rfl, rfl, rfl, rfl⟩
      · split
        · rfl
        · exact hs.leases r hr
      · refine (Dictionary.lookup_filter (· ≠ conversation_id) store.leases r.id).trans ?_
        by_cases hsame : r.id = conversation_id
        · have heq := row_eq_of_id hs hrow hr (hsame.trans hid.symm)
          subst heq
          rw [if_neg (by simpa using hsame),
            if_pos (Bool.and_eq_true_iff.mpr ⟨hchosen, decide_eq_true hactive⟩)]
          rfl
        · rw [if_pos (by simpa using hsame), if_neg (by simp [hsame])]
          exact hm.leases r hr
      · have hlookup := Dictionary.lookup_filter (· ≠ conversation_id) store.leases id
        rw [hlookup] at hid'
        split at hid'
        · exact hm.known id hid'
        · cases hid'
    · have hfilter : row.lease.filter (fun lease => lease.1 = request_id) = none := by
        rw [Option.filter_eq_none_iff]
        intro lease hheld hsame
        exact hactive (of_decide_eq_true hsame ▸ active_of_lease hheld)
      rw [if_neg (by simpa using hactive), if_pos rfl, hfilter]
      exact ⟨rfl, hs, hm⟩

end LeaseChanges

section Operations

/-- The identifiers drawn are new, and no name given is that of a conversation without one. -/
def StoreOperation.admissible (space : Spaces) (db : Database) : StoreOperation → Bool
  | .create id .. => id ∉ db.rows.map (·.id)
  | .rename _ name _ => strip space name ∉ ["", NEW_CONVERSATION]
  | .add_user_message id _ content _ =>
    id ∉ db.messages.map (·.message.id) && derive_name space content ∉ ["", NEW_CONVERSATION]
  | .add_assistant_message id .. => id ∉ db.messages.map (·.message.id)
  | _ => true

theorem proper_of_not_mem {name : String} (h : name ∉ ["", NEW_CONVERSATION]) :
    Proper (some name) := by
  rw [List.mem_cons, List.mem_singleton, not_or] at h
  exact ⟨fun heq => h.1 (Option.some.inj heq), fun heq => h.2 (Option.some.inj heq)⟩

/-- A conversation comes last in both stores. -/
theorem alike_create (hs : db.Sound) (hm : Mirrors db store) (hnew : row.id ∉ db.rows.map (·.id))
    (hname : row.name = none) (hactive : row.active_request_id = none)
    (hexpires : row.lease_expires_at = none) :
    db.conversation row = { db.conversation row with messages := [] } ∧
      { db with rows := db.rows ++ [row] }.Sound ∧
      Mirrors { db with rows := db.rows ++ [row] }
        { store with
          items := Dictionary.put row.id (db.conversation row) store.items
          owners := Dictionary.put row.id row.created_by store.owners
          versions := store.versions.put row.id row.graph_version } := by
  have hnone : db.messages_of row.id = [] := by
    rw [messages_of_eq hs, List.filter_eq_nil_iff]
    intro message hmessage hid
    exact hnew (of_decide_eq_true hid ▸ hs.placed message hmessage)
  have hids : (db.rows ++ [row]).map (·.id) = db.rows.map (·.id) ++ [row.id] := List.map_append
  have hkeys : row.id ∉ store.items.map (·.1) := by
    rw [hm.items, List.map_map]
    exact hnew
  have hother : ∀ r ∈ db.rows, r.id ≠ row.id := fun r hr heq =>
    hnew (heq ▸ List.mem_map_of_mem hr)
  refine ⟨by rw [Database.conversation, hnone]; rfl, ?_, ?_⟩
  · exact
      { ids := by
          rw [hids, List.nodup_append]
          refine ⟨hs.ids, List.nodup_singleton _, fun id hid other hother heq => ?_⟩
          rw [List.mem_singleton.mp hother] at heq
          exact hnew (heq ▸ hid)
        names := List.forall_mem_append.mpr ⟨hs.names, List.forall_mem_singleton.mpr
          (hname ▸ ⟨(Option.some_ne_none _).symm, (Option.some_ne_none _).symm⟩)⟩
        leases := List.forall_mem_append.mpr ⟨hs.leases, List.forall_mem_singleton.mpr
          (by rw [hactive, hexpires]; rfl)⟩
        row_ids := hs.row_ids
        numbered := hs.numbered
        message_ids := hs.message_ids
        placed := fun message hmessage => hids ▸ List.mem_append_left _ (hs.placed message hmessage)
        ordered := hs.ordered }
  · refine ⟨?_, ?_, ?_, ?_, fun id hid => hids ▸ List.mem_append_left _ (hm.known id hid)⟩
    · rw [Dictionary.put_new hkeys, hm.items, List.map_append]
      rfl
    · refine List.forall_mem_append.mpr ⟨fun r hr => ?_, List.forall_mem_singleton.mpr ?_⟩
      · rw [Dictionary.lookup_put, if_neg (hother r hr)]
        exact hm.owners r hr
      · rw [Dictionary.lookup_put, if_pos rfl]
    · refine List.forall_mem_append.mpr ⟨fun r hr => ?_, List.forall_mem_singleton.mpr ?_⟩
      · rw [Dictionary.lookup_put, if_neg (hother r hr)]
        exact hm.versions r hr
      · rw [Dictionary.lookup_put, if_pos rfl]
    · refine List.forall_mem_append.mpr ⟨hm.leases, List.forall_mem_singleton.mpr ?_⟩
      have hfree : store.leases.lookup row.id = none := by
        rw [← Option.not_isSome_iff_eq_none]
        exact fun hsome => hnew (hm.known row.id hsome)
      rw [hfree, ConversationRow.lease, hactive]

/-- An operation that reads the conversation it names. -/
theorem alike_read {α : Type} (hs : db.Sound) (hm : Mirrors db store) {active_only : Bool}
    {f : ConversationRow → α} {f' : Conversation → α}
    (hf : ∀ row ∈ db.rows, row.id = conversation_id → f row = f' (db.conversation row)) :
    Alike (do
        let row ← db.get_row conversation_id created_by active_only
        pure (f row, db))
      (do
        let item ← store.owned conversation_id created_by active_only
        pure (f' item, store)) := by
  refine .bind (owned_eq hs hm active_only) fun row hrow => ?_
  obtain ⟨hmem, hid⟩ := mem_of_get_row hrow
  exact ⟨hf row hmem hid, hs, hm⟩

/-- An operation is performed alike by both stores. -/
theorem perform_alike (hs : db.Sound) (hm : Mirrors db store) (operation : StoreOperation)
    (hadmissible : operation.admissible space db = true) :
    Alike (db.perform settings space now operation)
      (store.perform settings space now operation) := by
  cases operation with
  | create id project_id graph_version created_by =>
    obtain ⟨hreply, hsound, hmirrors⟩ := @alike_create db store
      { id, project_id, graph_version, created_by, name := none, created_at := now,
        updated_at := now, archived_at := none, active_request_id := none,
        lease_expires_at := none } hs hm (of_decide_eq_true hadmissible) rfl rfl rfl
    rw [hreply] at hmirrors
    exact ⟨rfl, hsound, hmirrors⟩
  | get conversation_id created_by => exact alike_read hs hm fun _ _ _ => rfl
  | get_scope conversation_id created_by include_archived =>
    refine alike_read hs hm fun row hrow hid => ?_
    rw [← hid, hm.versions row hrow]
    rfl
  | rename conversation_id name created_by =>
    have hname := proper_of_not_mem (of_decide_eq_true hadmissible)
    refine .bind (owned_eq hs hm true) fun row hrow => ?_
    obtain ⟨hmem, rfl⟩ := mem_of_get_row hrow
    refine .bind (reject_lease_eq hm hmem) fun _ _ => ?_
    obtain ⟨hsound, hmirrors⟩ := @alike_update db store row
      (fun row => { row with name := some (strip space name), updated_at := now }) hs hm hmem
      (fun _ => ⟨rfl, rfl, rfl, rfl, rfl⟩) hname
    have hshown : db.conversation { row with name := some (strip space name), updated_at := now } =
        { db.conversation row with name := strip space name, updated_at := now } := by
      rw [Database.conversation, shown_of_proper hname rfl]
      rfl
    rw [hshown] at hmirrors
    exact ⟨congrArg _ hshown, hsound, hmirrors⟩
  | archive conversation_id created_by =>
    refine .bind (owned_eq hs hm true) fun row hrow => ?_
    obtain ⟨hmem, rfl⟩ := mem_of_get_row hrow
    refine .bind (reject_lease_eq hm hmem) fun _ _ => ?_
    exact ⟨rfl, @alike_update db store row
      (fun row => { row with archived_at := some now, updated_at := now }) hs hm hmem
      (fun _ => ⟨rfl, rfl, rfl, rfl, rfl⟩) (hs.names row hmem)⟩
  | restore conversation_id created_by =>
    refine .bind (owned_eq hs hm false) fun row hrow => ?_
    obtain ⟨hmem, rfl⟩ := mem_of_get_row hrow
    refine .bind (Except.map_id_eq _) fun _ _ => .bind (reject_lease_eq hm hmem) fun _ _ => ?_
    exact ⟨rfl, @alike_update db store row
      (fun row => { row with archived_at := none, updated_at := now }) hs hm hmem
      (fun _ => ⟨rfl, rfl, rfl, rfl, rfl⟩) (hs.names row hmem)⟩
  | purge conversation_id created_by =>
    refine .bind (owned_eq hs hm false) fun row hrow => ?_
    obtain ⟨hmem, rfl⟩ := mem_of_get_row hrow
    refine .bind (Except.map_id_eq _) fun _ _ => .bind (reject_lease_eq hm hmem) fun _ _ => ?_
    exact ⟨rfl, hs.keeping _, hm.keeping hs fun r _ => by simp⟩
  | delete_project project_id =>
    have hdeleted : db.delete_project project_id =
        db.keeping fun row => !decide (row.project_id = project_id) := by
      simp [Database.delete_project, Database.keeping]
    obtain ⟨hcount, hmirrors⟩ := @alike_removal db store hs hm (·.project_id = project_id)
      (·.project_id = project_id) fun _ _ => rfl
    refine ⟨congrArg StoreReply.deleted hcount.symm, ?_, ?_⟩
    · rw [hdeleted]
      exact hs.keeping _
    · rw [hdeleted]
      exact hmirrors
  | cleanup =>
    obtain ⟨hcount, hmirrors⟩ := @alike_removal db store hs hm (·.expired settings now)
      (·.expired settings now) fun _ _ => rfl
    exact ⟨congrArg StoreReply.deleted hcount.symm, hs.keeping _, hmirrors⟩
  | add_user_message id conversation_id content created_by =>
    obtain ⟨hnew, hname⟩ := Bool.and_eq_true_iff.mp hadmissible
    obtain ⟨e, hdb, hstore⟩ | ⟨db', store', hdb, hstore, hsound, hmirrors, -⟩ :=
      @alike_append space db store conversation_id created_by
        { id, role := .user, content, status := .completed, created_at := now, result := none }
        hs hm (of_decide_eq_true hnew) fun _ => proper_of_not_mem (of_decide_eq_true hname)
    · rw [Database.perform, InMemoryStore.perform, hdb, hstore]
      exact rfl
    · rw [Database.perform, InMemoryStore.perform, hdb, hstore]
      exact ⟨rfl, hsound, hmirrors⟩
  | add_assistant_message id conversation_id content status result created_by =>
    obtain ⟨e, hdb, hstore⟩ | ⟨db', store', hdb, hstore, hsound, hmirrors, row, hrow, rfl⟩ :=
      @alike_append space db store conversation_id created_by
        { id, role := .assistant, content, status, created_at := now, result } hs hm
        (of_decide_eq_true hadmissible) fun hrole => Role.noConfusion hrole
    · rw [Database.perform, InMemoryStore.perform, hdb, hstore]
      exact rfl
    · obtain ⟨pruned, hprune, hpruned⟩ := @alike_prune settings db' store' row hsound hmirrors hrow
      rw [Database.perform, InMemoryStore.perform, hdb, hstore]
      change Alike (.ok _) (store'.prune settings row.id >>= fun store => pure (_, store))
      rw [hprune]
      exact ⟨rfl, hsound.prune _ _, hpruned⟩
  | acquire_request conversation_id request_id created_by => exact alike_acquire hs hm request_id
  | release_request conversation_id request_id created_by => exact alike_release hs hm request_id
  | get_history conversation_id max_turns max_chars created_by =>
    exact alike_read hs hm fun _ _ _ => rfl

end Operations

/-- The replies to operations one after another, each at its moment of the clock. -/
def replies {σ : Type} (perform : Nat → σ → StoreOperation → Except StoreError (StoreReply × σ)) :
    σ → List (Nat × StoreOperation) → List (Except StoreError StoreReply)
  | _, [] => []
  | s, (now, operation) :: rest =>
    match perform now s operation with
    | .ok (reply, s') => .ok reply :: replies perform s' rest
    | .error e => .error e :: replies perform s rest

/-- The operations are admissible when it comes to them. -/
def admits_all (settings : StoreSettings) (space : Spaces) :
    Database → List (Nat × StoreOperation) → Bool
  | _, [] => true
  | db, (now, operation) :: rest =>
    operation.admissible space db &&
      match db.perform settings space now operation with
      | .ok (_, db') => admits_all settings space db' rest
      | .error _ => admits_all settings space db rest

theorem replies_eq (hs : db.Sound) (hm : Mirrors db store)
    (operations : List (Nat × StoreOperation))
    (h : admits_all settings space db operations = true) :
    replies (fun now db => db.perform settings space now) db operations =
      replies (fun now store => store.perform settings space now) store operations := by
  induction operations generalizing db store with
  | nil => rfl
  | cons asked rest ih =>
    obtain ⟨now, operation⟩ := asked
    rw [admits_all, Bool.and_eq_true] at h
    have halike := @perform_alike settings space now db store hs hm operation h.1
    rw [replies, replies]
    revert halike h
    cases db.perform settings space now operation with
    | error e =>
      cases store.perform settings space now operation with
      | error e' =>
        intro h halike
        have he : e = e' := halike
        rw [he]
        exact congrArg _ (ih hs hm h.2)
      | ok _ => exact fun _ halike => halike.elim
    | ok found =>
      cases store.perform settings space now operation with
      | error _ => exact fun _ halike => halike.elim
      | ok found' =>
        intro h halike
        obtain ⟨hreply, hs', hm'⟩ := halike
        dsimp only
        rw [hreply]
        exact congrArg _ (ih hs' hm' h.2)

theorem empty_sound : Database.empty.Sound where
  ids := List.nodup_nil
  names _ hrow := absurd hrow List.not_mem_nil
  leases _ hrow := absurd hrow List.not_mem_nil
  row_ids := List.nodup_nil
  numbered _ hrow := absurd hrow List.not_mem_nil
  message_ids := List.nodup_nil
  placed _ hrow := absurd hrow List.not_mem_nil
  ordered _ := .nil

theorem empty_mirrors : Mirrors .empty .empty where
  items := rfl
  owners _ hrow := absurd hrow List.not_mem_nil
  versions _ hrow := absurd hrow List.not_mem_nil
  leases _ hrow := absurd hrow List.not_mem_nil
  known _ hsome := absurd hsome Bool.false_ne_true

/-- The SQL store and the in-memory store give the same replies and raise the same errors, whatever
is asked of them in whatever order, when the identifiers that they draw are new and no name is
given, or derived, that is the one shown of a conversation without a name. -/
theorem stores_agree (settings : StoreSettings) (space : Spaces)
    (operations : List (Nat × StoreOperation))
    (h : admits_all settings space .empty operations = true) :
    replies (fun now db => db.perform settings space now) Database.empty operations =
      replies (fun now store => store.perform settings space now) InMemoryStore.empty operations :=
  replies_eq empty_sound empty_mirrors operations h

end Agreement

/-- Two questions are answered, a name is refused while the first is being answered, and the
conversation is archived, brought back and removed at last. -/
def two_questions : List (Nat × StoreOperation) :=
  [(0, .create "c" "p" none "u"), (1, .acquire_request "c" "r" "u"),
    (2, .add_user_message "m1" "c" "What is this? Tell me." "u"), (3, .rename "c" "Law" "u"),
    (4, .add_assistant_message "m2" "c" "A law." .completed none "u"),
    (5, .release_request "c" "r" "u"), (6, .add_user_message "m3" "c" "Which one?" "u"),
    (7, .add_assistant_message "m4" "c" "The first." .completed none "u"),
    (8, .get_history "c" 5 100 "u"), (9, .archive "c" "u"), (10, .get "c" "u"),
    (11, .restore "c" "u"), (12, .archive "c" "u"), (40, .cleanup), (41, .purge "c" "u")]

theorem stores_agree_two_questions :
    replies (fun now db => db.perform ⟨20, 1, 30⟩ Char.isWhitespace now) Database.empty
        two_questions =
      replies (fun now store => store.perform ⟨20, 1, 30⟩ Char.isWhitespace now)
        InMemoryStore.empty two_questions ∧
    (replies (fun now db => db.perform ⟨20, 1, 30⟩ Char.isWhitespace now) Database.empty
        two_questions).length = 15 :=
  ⟨stores_agree ⟨20, 1, 30⟩ Char.isWhitespace two_questions (by decide +kernel), by decide +kernel⟩

end lagraph.conversations
