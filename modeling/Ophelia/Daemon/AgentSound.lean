import Ophelia.Daemon.Agent
import Ophelia.Journal.LeaseWrites

/-!
# Ophelia.Daemon.AgentSound

The protocol of the command queue. A call records the next command, moves one command that is
not terminal, or raises the acknowledgement over terminal commands (`AgentStore.Moves`). From
that follows what every reachable store keeps: the sequences above the acknowledged one have
no gap, so the results to deliver are the terminal ones that follow it without a gap.
-/

namespace Ophelia

variable [Platform]

namespace AgentStore

variable {s s' : AgentStore} {c row : AgentCommand}

/-! ### What a call does -/

/-- What the calls do to the row of one command. -/
inductive Change : AgentCommand → AgentCommand → Prop where
  | started (c : AgentCommand) (startedAt : Utc) :
      Change c { c with state := .running, startedAt := some startedAt }
  | completed (c : AgentCommand) (state : CommandState) (completedAt : Utc) (digest : Digest)
      (json : String) :
      Change c
        { c with
          state, completedAt := some completedAt, resultDigest := some digest,
          resultJson := some json }

/-- What a successful call does to the store. -/
inductive Moves (s : AgentStore) : AgentStore → Prop where
  | idle : Moves s s
  | records (row : AgentCommand) (hfree : s.commands.get? row.commandId = none)
      (hnext : row.sequence = max s.maximum s.acknowledged + 1) :
      Moves s { s with commands := s.commands.put row }
  | changes (row row' : AgentCommand) (hfound : s.commands.get? row.commandId = some row)
      (hlive : row.state.terminal = false) (hchange : Change row row') :
      Moves s { s with commands := s.commands.put row' }
  | acknowledges (n : Nat) (hrises : s.acknowledged < n)
      (hcomplete : ∀ c ∈ s.commands.rows, c.sequence ≤ n → c.state.terminal = true) :
      Moves s { s with acknowledged := n }

/-- The command and the row it is bound to. -/
structure Binds (q : Command) (row : AgentCommand) : Prop where
  commandId : row.commandId = q.commandId
  sequence : (row.sequence : Int) = q.sequence
  request : row.requestDigest = q.requestDigest
  key : row.idempotencyKeyDigest = digestText q.idempotencyKey

theorem existing?_eq_none {q : Command} : s.existing? q = none ↔
    ∀ c ∈ s.commands.rows, c.commandId ≠ q.commandId ∧ (c.sequence : Int) ≠ q.sequence := by
  simp [existing?, List.find?_eq_none]

/-- **A successful `accept`** returns the row the command is bound to, or records the next
one. -/
theorem accept_eq_ok {q : Command} {clock : Int} (h : s.accept q clock = .ok (s', row)) :
    Binds q row ∧ ((s.existing? q = some row ∧ s' = s) ∨
      (s.existing? q = none ∧ row.sequence = max s.maximum s.acknowledged + 1 ∧
        row.state = .accepted ∧ s' = { s with commands := s.commands.put row })) := by
  unfold accept at h
  obtain ⟨envelopeDigest, -, h⟩ := Results.bind_eq_ok.mp h
  obtain ⟨payloadJson, -, h⟩ := Results.bind_eq_ok.mp h
  obtain ⟨_, -, h⟩ := Results.bind_eq_ok.mp h
  dsimp only at h
  split at h
  · rename_i existing hexisting
    obtain ⟨_, hsame, h⟩ := Results.bind_eq_ok.mp h
    obtain ⟨hid, hsequence, hrequest, hkey⟩ := ensure_eq_ok.mp hsame
    obtain ⟨rfl, rfl⟩ := Prod.mk.inj (Except.ok.inj h)
    exact ⟨⟨hid, hsequence, hrequest, hkey⟩, Or.inl ⟨hexisting, rfl⟩⟩
  · rename_i hnone
    obtain ⟨_, hnext, h⟩ := Results.bind_eq_ok.mp h
    obtain ⟨acceptedAt, -, h⟩ := Results.bind_eq_ok.mp h
    obtain ⟨rfl, rfl⟩ := Prod.mk.inj (Except.ok.inj h)
    exact ⟨⟨rfl, (ensure_eq_ok.mp hnext).symm, rfl, rfl⟩, Or.inr ⟨hnone, rfl, rfl, rfl⟩⟩

theorem markRunning_eq_ok {id : String} {clock : Int}
    (h : s.markRunning id clock = .ok (s', row)) :
    ∃ old, s.commands.get? id = some old ∧
      ((old.state.terminal = true ∧ s' = s ∧ row = old) ∨
        (old.state.terminal = false ∧
          (∃ startedAt, row = { old with state := .running, startedAt := some startedAt }) ∧
          s' = { s with commands := s.commands.put row })) := by
  unfold markRunning at h
  split at h
  · exact absurd h (by simp)
  · rename_i old hold
    refine ⟨old, hold, ?_⟩
    split at h
    · rename_i hterminal
      obtain ⟨rfl, rfl⟩ := Prod.mk.inj (Except.ok.inj h)
      exact Or.inl ⟨hterminal, rfl, rfl⟩
    · rename_i hlive
      obtain ⟨startedAt, -, h⟩ := Results.bind_eq_ok.mp h
      obtain ⟨rfl, rfl⟩ := Prod.mk.inj (Except.ok.inj h)
      exact Or.inr ⟨by simpa using hlive, ⟨startedAt, rfl⟩, rfl⟩

theorem complete_eq_ok {id : String} {succeeded : Bool} {result : Json} {clock : Int}
    (h : s.complete id succeeded result clock = .ok (s', row)) :
    ∃ old, s.commands.get? id = some old ∧
      ((old.state.terminal = true ∧ s' = s) ∨
        (old.state.terminal = false ∧ Change old row ∧ row.state.terminal = true ∧
          s' = { s with commands := s.commands.put row })) := by
  unfold complete at h
  obtain ⟨resultJson, -, h⟩ := Results.bind_eq_ok.mp h
  dsimp only at h
  split at h
  · exact absurd h (by simp [throw, throwThe, MonadExceptOf.throw])
  · rename_i old hold
    refine ⟨old, hold, ?_⟩
    split at h
    · rename_i hterminal
      obtain ⟨_, -, h⟩ := Results.bind_eq_ok.mp h
      exact Or.inl ⟨hterminal, (Prod.mk.inj (Except.ok.inj h)).1.symm⟩
    · rename_i hlive
      obtain ⟨completedAt, -, h⟩ := Results.bind_eq_ok.mp h
      obtain ⟨rfl, rfl⟩ := Prod.mk.inj (Except.ok.inj h)
      refine Or.inr ⟨by simpa using hlive, .completed old _ completedAt _ _, ?_, rfl⟩
      cases succeeded <;> rfl

theorem acknowledgeResults_eq_ok {hostId : String} {sequence clock : Int} {n : Nat}
    (h : s.acknowledgeResults hostId sequence clock = .ok (s', n)) : Moves s s' := by
  unfold acknowledgeResults at h
  obtain ⟨_, -, h⟩ := Results.bind_eq_ok.mp h
  obtain ⟨_, -, h⟩ := Results.bind_eq_ok.mp h
  split at h
  · obtain ⟨rfl, -⟩ := Prod.mk.inj (Except.ok.inj h)
    exact .idle
  · rename_i hrises
    obtain ⟨_, -, h⟩ := Results.bind_eq_ok.mp h
    obtain ⟨_, hcomplete, h⟩ := Results.bind_eq_ok.mp h
    have hcomplete := ensure_eq_ok.mp hcomplete
    obtain ⟨_, -, h⟩ := Results.bind_eq_ok.mp h
    obtain ⟨rfl, -⟩ := Prod.mk.inj (Except.ok.inj h)
    refine .acknowledges sequence.toNat (by omega) fun c hc hle => hcomplete c hc (by omega)

theorem map_fst_eq_ok {α : Type} {x : Result (AgentStore × α)} (h : x.map Prod.fst = .ok s') :
    ∃ a, x = .ok (s', a) := by
  cases x with
  | error e => exact absurd h (by simp [Except.map])
  | ok p =>
      obtain ⟨s₁, a⟩ := p
      obtain rfl : s₁ = s' := by simpa [Except.map] using h
      exact ⟨a, rfl⟩

theorem get?_commandId {id : String} (h : s.commands.get? id = some row) :
    s.commands.get? row.commandId = some row := by
  rw [Table.key_of_get? h]
  exact h

/-- **Every successful call is a move.** -/
theorem moves_run {call : AgentCall} (h : call.run s = .ok s') : Moves s s' := by
  cases call with
  | accept q clock =>
      obtain ⟨row, h⟩ := map_fst_eq_ok h
      obtain ⟨hbinds, ⟨-, rfl⟩ | ⟨hnone, hnext, -, rfl⟩⟩ := accept_eq_ok h
      · exact .idle
      · refine .records row (Table.get?_eq_none.mpr fun c hc => ?_) hnext
        rw [hbinds.commandId]
        exact (existing?_eq_none.mp hnone c hc).1
  | markRunning id clock =>
      obtain ⟨row, h⟩ := map_fst_eq_ok h
      obtain ⟨old, hold, ⟨-, rfl, -⟩ | ⟨hlive, ⟨startedAt, rfl⟩, rfl⟩⟩ := markRunning_eq_ok h
      · exact .idle
      · exact .changes old _ (get?_commandId hold) hlive (.started old startedAt)
  | complete id succeeded result clock =>
      obtain ⟨row, h⟩ := map_fst_eq_ok h
      obtain ⟨old, hold, ⟨-, rfl⟩ | ⟨hlive, hchange, -, rfl⟩⟩ := complete_eq_ok h
      · exact .idle
      · exact .changes old row (get?_commandId hold) hlive hchange
  | acknowledgeResults hostId sequence clock =>
      obtain ⟨n, h⟩ := map_fst_eq_ok h
      exact acknowledgeResults_eq_ok h
  | pendingResults hostId limit =>
      rw [AgentCall.run] at h
      cases hrows : s.pendingResults hostId limit with
      | error e =>
          rw [hrows] at h
          exact absurd h (by simp [Except.map])
      | ok rows =>
          rw [hrows] at h
          obtain rfl := Except.ok.inj h
          exact .idle

theorem moves_apply (s : AgentStore) (call : AgentCall) : Moves s (call.apply s) := by
  unfold AgentCall.apply
  split
  · rename_i s' hrun
    exact moves_run hrun
  · exact .idle

/-- What moves keep, calls keep. -/
theorem runCalls_induction {P : AgentStore → Prop} (hmoves : ∀ {s s'}, P s → Moves s s' → P s')
    (h : P s) (calls : List AgentCall) : P (s.runCalls calls) := by
  induction calls generalizing s with
  | nil => exact h
  | cons call calls ih => exact ih (hmoves h (moves_apply s call))

/-! ### What a command keeps -/

/-- The content a command is bound to. -/
structure SameContent (c c' : AgentCommand) : Prop where
  commandId : c'.commandId = c.commandId
  sequence : c'.sequence = c.sequence
  operation : c'.operation = c.operation
  actorId : c'.actorId = c.actorId
  key : c'.idempotencyKeyDigest = c.idempotencyKeyDigest
  envelope : c'.envelopeDigest = c.envelopeDigest
  request : c'.requestDigest = c.requestDigest
  payload : c'.payloadJson = c.payloadJson
  acceptedAt : c'.acceptedAt = c.acceptedAt

theorem SameContent.refl (c : AgentCommand) : SameContent c c :=
  ⟨rfl, rfl, rfl, rfl, rfl, rfl, rfl, rfl, rfl⟩

theorem SameContent.trans {c₁ c₂ c₃ : AgentCommand} (h : SameContent c₁ c₂)
    (h' : SameContent c₂ c₃) : SameContent c₁ c₃ :=
  ⟨h'.commandId.trans h.commandId, h'.sequence.trans h.sequence,
    h'.operation.trans h.operation, h'.actorId.trans h.actorId, h'.key.trans h.key,
    h'.envelope.trans h.envelope, h'.request.trans h.request, h'.payload.trans h.payload,
    h'.acceptedAt.trans h.acceptedAt⟩

theorem Change.sameContent {c c' : AgentCommand} (h : Change c c') : SameContent c c' := by
  cases h <;> exact ⟨rfl, rfl, rfl, rfl, rfl, rfl, rfl, rfl, rfl⟩

/-- A command stays with its content, and with its result once it is terminal; the
acknowledgement does not go back. -/
structure Follows (s s' : AgentStore) : Prop where
  content : ∀ c ∈ s.commands.rows, ∃ c' ∈ s'.commands.rows, SameContent c c'
  settled : ∀ c ∈ s.commands.rows, c.state.terminal = true → c ∈ s'.commands.rows
  acknowledged : s.acknowledged ≤ s'.acknowledged

theorem Follows.refl (s : AgentStore) : Follows s s :=
  ⟨fun c hc => ⟨c, hc, SameContent.refl c⟩, fun _ hc _ => hc, Nat.le_refl _⟩

theorem Follows.trans {s₁ s₂ s₃ : AgentStore} (h : Follows s₁ s₂) (h' : Follows s₂ s₃) :
    Follows s₁ s₃ := by
  refine ⟨?_, ?_, Nat.le_trans h.acknowledged h'.acknowledged⟩
  · intro c hc
    obtain ⟨c₂, hc₂, hsame⟩ := h.content c hc
    obtain ⟨c₃, hc₃, hsame'⟩ := h'.content c₂ hc₂
    exact ⟨c₃, hc₃, hsame.trans hsame'⟩
  · intro c hc hterminal
    exact h'.settled c (h.settled c hc hterminal) hterminal

theorem Moves.follows (h : Moves s s') : Follows s s' := by
  cases h with
  | idle => exact Follows.refl s
  | records row hfree hnext =>
      have hkept : ∀ c ∈ s.commands.rows, c ∈ (s.commands.put row).rows := fun c hc =>
        Table.mem_put.mpr (Or.inr ⟨hc, Table.get?_eq_none.mp hfree c hc⟩)
      exact ⟨fun c hc => ⟨c, hkept c hc, SameContent.refl c⟩, fun c hc _ => hkept c hc,
        Nat.le_refl _⟩
  | changes row row' hfound hlive hchange =>
      have hsame := hchange.sameContent
      have hmem := Table.mem_of_get? hfound
      refine ⟨?_, ?_, Nat.le_refl _⟩
      · intro c hc
        by_cases hid : c.commandId = row.commandId
        · obtain rfl := Table.eq_of_mem_of_key_eq hc hmem hid
          exact ⟨row', Table.mem_put.mpr (Or.inl rfl), hsame⟩
        · refine ⟨c, Table.mem_put.mpr (Or.inr ⟨hc, ?_⟩), SameContent.refl c⟩
          rw [hsame.commandId]
          exact hid
      · intro c hc hterminal
        refine Table.mem_put.mpr (Or.inr ⟨hc, ?_⟩)
        rw [hsame.commandId]
        intro hid
        obtain rfl := Table.eq_of_mem_of_key_eq hc hmem hid
        rw [hlive] at hterminal
        exact absurd hterminal (by simp)
  | acknowledges n hrises hcomplete =>
      exact ⟨(Follows.refl s).content, (Follows.refl s).settled, Nat.le_of_lt hrises⟩

theorem follows_runCalls (s : AgentStore) (calls : List AgentCall) :
    Follows s (s.runCalls calls) :=
  runCalls_induction (P := Follows s) (fun h hmove => h.trans hmove.follows) (Follows.refl s)
    calls

/-! ### What every store keeps -/

/-- What holds of every reachable store. -/
structure Sound (s : AgentStore) : Prop where
  contiguous : ∀ c ∈ s.commands.rows, ∀ n, s.acknowledged < n → n ≤ c.sequence →
    ∃ c' ∈ s.commands.rows, c'.sequence = n
  sequences : ∀ c ∈ s.commands.rows, ∀ c' ∈ s.commands.rows, c.sequence = c'.sequence → c = c'
  delivered : ∀ c ∈ s.commands.rows, c.sequence ≤ s.acknowledged → c.state.terminal = true

theorem Sound.register (hostId : String) : Sound (AgentStore.register hostId) := by
  refine ⟨?_, ?_, ?_⟩ <;> intro c hc <;> exact absurd hc (by simp [AgentStore.register])

omit [Platform] in
theorem le_maximum [Platform] {s : AgentStore} {c : AgentCommand} (hc : c ∈ s.commands.rows) :
    c.sequence ≤ s.maximum :=
  foldr_max_le.mp (Nat.le_refl _) c.sequence (List.mem_map_of_mem hc)

theorem exists_maximum (h : 0 < s.maximum) : ∃ c ∈ s.commands.rows, c.sequence = s.maximum := by
  have hmem : ∀ l : List Nat, 0 < l.foldr max 0 → l.foldr max 0 ∈ l := by
    intro l hl
    induction l with
    | nil => exact absurd hl (by simp)
    | cons x l ih =>
        rw [List.foldr_cons] at hl ⊢
        by_cases hx : l.foldr max 0 ≤ x
        · rw [max_eq_left hx]
          exact List.mem_cons_self
        · rw [max_eq_right (by omega)]
          exact List.mem_cons_of_mem x (ih (by omega))
  obtain ⟨c, hc, hsequence⟩ := List.mem_map.mp (hmem _ h)
  exact ⟨c, hc, hsequence⟩

/-- **Moves keep the store sound.** -/
theorem Sound.moves (h : Sound s) (hmove : Moves s s') : Sound s' := by
  cases hmove with
  | idle => exact h
  | records row hfree hnext =>
      have hother : ∀ c ∈ s.commands.rows, c.sequence < row.sequence := by
        intro c hc
        have hle := le_maximum hc
        omega
      have hold : ∀ c ∈ s.commands.rows, c ∈ (s.commands.put row).rows := fun c hc =>
        Table.mem_put.mpr (Or.inr ⟨hc, Table.get?_eq_none.mp hfree c hc⟩)
      refine ⟨?_, ?_, ?_⟩
      · intro c hc n hack hn
        rcases Table.mem_put.mp hc with rfl | ⟨hc, -⟩
        · -- below the new command, the sequences up to the greatest one are there
          by_cases htop : n = c.sequence
          · exact ⟨c, Table.mem_put.mpr (Or.inl rfl), htop.symm⟩
          · have hle : n ≤ s.maximum := by
              have hack' : s.acknowledged < n := hack
              omega
            obtain ⟨top, htopmem, htopsequence⟩ := exists_maximum (s := s) (by omega)
            obtain ⟨c', hc', hsequence⟩ := h.contiguous top htopmem n hack (by omega)
            exact ⟨c', hold c' hc', hsequence⟩
        · obtain ⟨c', hc', hsequence⟩ := h.contiguous c hc n hack hn
          exact ⟨c', hold c' hc', hsequence⟩
      · intro c hc c' hc' hsequence
        rcases Table.mem_put.mp hc with rfl | ⟨hmem, -⟩
        · rcases Table.mem_put.mp hc' with rfl | ⟨hmem, -⟩
          · rfl
          · have hlt := hother c' hmem
            omega
        · rcases Table.mem_put.mp hc' with rfl | ⟨hmem', -⟩
          · have hlt := hother c hmem
            omega
          · exact h.sequences c hmem c' hmem' hsequence
      · intro c hc hack
        rcases Table.mem_put.mp hc with rfl | ⟨hc, -⟩
        · have hack' : c.sequence ≤ s.acknowledged := hack
          omega
        · exact h.delivered c hc hack
  | changes row row' hfound hlive hchange =>
      have hsame := hchange.sameContent
      have hmem := Table.mem_of_get? hfound
      -- a command of the new store has the sequence of one of the old store
      have hback : ∀ c ∈ (s.commands.put row').rows, ∃ c₀ ∈ s.commands.rows,
          SameContent c₀ c ∧ (c₀.state.terminal = true → c = c₀) := by
        intro c hc
        rcases Table.mem_put.mp hc with rfl | ⟨hc, -⟩
        · refine ⟨row, hmem, hsame, fun hterminal => ?_⟩
          rw [hlive] at hterminal
          exact absurd hterminal (by simp)
        · exact ⟨c, hc, SameContent.refl c, fun _ => rfl⟩
      have hfollows : Follows s { s with commands := s.commands.put row' } :=
        Moves.follows (.changes row row' hfound hlive hchange)
      refine ⟨?_, ?_, ?_⟩
      · intro c hc n hack hn
        obtain ⟨c₀, hc₀, hsame₀, -⟩ := hback c hc
        obtain ⟨c₁, hc₁, hsequence⟩ := h.contiguous c₀ hc₀ n hack (hsame₀.sequence ▸ hn)
        obtain ⟨c₂, hc₂, hsame₂⟩ := hfollows.content c₁ hc₁
        exact ⟨c₂, hc₂, hsame₂.sequence.trans hsequence⟩
      · intro c hc c' hc' hsequence
        obtain ⟨c₀, hc₀, hsame₀, -⟩ := hback c hc
        obtain ⟨c₁, hc₁, hsame₁, -⟩ := hback c' hc'
        have heq : c₀ = c₁ := by
          refine h.sequences c₀ hc₀ c₁ hc₁ ?_
          rw [← hsame₀.sequence, ← hsame₁.sequence, hsequence]
        refine Table.eq_of_mem_of_key_eq hc hc' ?_
        rw [hsame₀.commandId, hsame₁.commandId, heq]
      · intro c hc hack
        obtain ⟨c₀, hc₀, hsame₀, hkept⟩ := hback c hc
        have hterminal := h.delivered c₀ hc₀ (hsame₀.sequence ▸ hack)
        rw [hkept hterminal]
        exact hterminal
  | acknowledges n hrises hcomplete =>
      refine ⟨?_, h.sequences, hcomplete⟩
      intro c hc m hm
      exact h.contiguous c hc m (Nat.lt_trans hrises hm)

/-- **Every reachable store is sound.** -/
theorem Sound.runCalls (hostId : String) (calls : List AgentCall) :
    Sound ((AgentStore.register hostId).runCalls calls) :=
  runCalls_induction (P := Sound) (fun h hmove => h.moves hmove) (Sound.register hostId) calls

/-! ### Delivery -/

/-- The commands above the acknowledged one, in order. -/
def undelivered (s : AgentStore) : List AgentCommand :=
  orderBy (·.sequence) (s.commands.rows.filter fun c => s.acknowledged < c.sequence)

theorem mem_undelivered :
    c ∈ s.undelivered ↔ c ∈ s.commands.rows ∧ s.acknowledged < c.sequence := by
  simp [undelivered, mem_orderBy]

/-- They are numbered from the acknowledged one on, without a gap. -/
theorem Sound.undelivered (h : Sound s) : s.undelivered.map (·.sequence) =
    List.range' (s.acknowledged + 1) s.undelivered.length := by
  have hsorted : s.undelivered.Pairwise fun a b => a.sequence ≤ b.sequence :=
    List.pairwise_insertionSort _ _
  have hnodup : s.undelivered.Nodup := by
    refine (List.Perm.nodup_iff (List.perm_insertionSort _ _)).mpr (List.Nodup.filter _ ?_)
    exact List.Nodup.of_map _ s.commands.unique
  have hlt : s.undelivered.Pairwise fun a b => a.sequence < b.sequence := by
    refine (hsorted.and hnodup).imp_of_mem ?_
    intro a b ha hb hab
    refine Nat.lt_of_le_of_ne hab.1 fun heq => hab.2 ?_
    exact h.sequences a (mem_undelivered.mp ha).1 b (mem_undelivered.mp hb).1 heq
  rw [← List.length_map (f := fun c : AgentCommand => c.sequence)]
  refine List.eq_range'_of_gapless (List.pairwise_map.mpr hlt) ?_ ?_
  · intro n hn
    obtain ⟨c, hc, rfl⟩ := List.mem_map.mp hn
    exact (mem_undelivered.mp hc).2
  · intro n hn m hack hle
    obtain ⟨c, hc, rfl⟩ := List.mem_map.mp hn
    obtain ⟨c', hc', rfl⟩ := h.contiguous c (mem_undelivered.mp hc).1 m hack hle
    exact List.mem_map_of_mem (mem_undelivered.mpr ⟨hc', hack⟩)

/-- The terminal commands that follow the acknowledged one without a gap, as many as there
are. -/
structure TerminalRun (s : AgentStore) (run : List AgentCommand) : Prop where
  recorded : ∀ c ∈ run, c ∈ s.commands.rows ∧ c.state.terminal = true
  numbered : run.map (·.sequence) = List.range' (s.acknowledged + 1) run.length
  maximal : ∀ c ∈ s.commands.rows, c.sequence = s.acknowledged + run.length + 1 →
    c.state.terminal = false

theorem Sound.terminalRun (h : Sound s) :
    TerminalRun s (s.undelivered.takeWhile (·.state.terminal)) := by
  set run := s.undelivered.takeWhile (·.state.terminal) with hrun
  have hsplit : run ++ s.undelivered.dropWhile (·.state.terminal) = s.undelivered :=
    List.takeWhile_append_dropWhile
  have hmap := h.undelivered
  rw [← hsplit, List.map_append, List.length_append, List.range'_append_1.symm] at hmap
  obtain ⟨hnumbered, hrest⟩ := List.append_inj hmap (by simp)
  refine ⟨?_, hnumbered, ?_⟩
  · intro c hc
    have hmem : c ∈ s.undelivered := (List.takeWhile_sublist _).subset hc
    exact ⟨(mem_undelivered.mp hmem).1, List.all_eq_true.mp List.all_takeWhile c hc⟩
  · intro c hc hsequence
    -- the command after the run is the first of the rest
    have hmem : c ∈ s.undelivered := mem_undelivered.mpr ⟨hc, by omega⟩
    cases hdrop : s.undelivered.dropWhile (·.state.terminal) with
    | nil =>
        rw [hdrop, List.append_nil] at hsplit
        rw [← hsplit] at hmem
        have hin : c.sequence ∈ run.map (·.sequence) := List.mem_map_of_mem hmem
        rw [hnumbered, List.mem_range'_1] at hin
        omega
    | cons x rest =>
        rw [hdrop, List.map_cons, List.length_cons, List.range'_succ] at hrest
        have hx : x.sequence = s.acknowledged + 1 + run.length := (List.cons.inj hrest).1
        have hxmem : x ∈ s.undelivered := by
          rw [← hsplit, hdrop]
          simp
        have hcx : c = x := h.sequences c hc x (mem_undelivered.mp hxmem).1 (by omega)
        have hnot := List.head?_dropWhile_not (fun c : AgentCommand => c.state.terminal)
          s.undelivered
        rw [hdrop] at hnot
        rw [hcx]
        simpa using hnot

/-- **`pending_results`** is the terminal run above the acknowledged command, cut to the
limit. -/
theorem pendingResults_eq (s : AgentStore) {limit : Int} (hlimit : -2 ^ 63 ≤ limit ∧ limit < 2 ^ 63) :
    s.pendingResults s.hostId limit =
      .ok (sqlLimit limit (s.undelivered.takeWhile (·.state.terminal))) := by
  have hcut : (sqlLimit limit s.undelivered).takeWhile (·.state.terminal) =
      sqlLimit limit (s.undelivered.takeWhile (·.state.terminal)) := by
    unfold sqlLimit
    split
    · rfl
    · exact List.take_takeWhile.symm
  rw [← hcut]
  exact Results.bind_ok (ensure_of rfl) <| Results.bind_ok (ensure_of hlimit) rfl

/-- A replay returns the row the command was bound to. -/
theorem Follows.accept (h : Follows s s') (hsound : Sound s') {q : Command} {clock : Int}
    {s₁ : AgentStore} {c row : AgentCommand} (hc : c ∈ s.commands.rows)
    (hsame : q.commandId = c.commandId ∨ q.sequence = c.sequence)
    (haccept : s'.accept q clock = .ok (s₁, row)) :
    s₁ = s' ∧ SameContent c row ∧ Binds q c := by
  obtain ⟨c', hc', hcontent⟩ := h.content c hc
  obtain ⟨hbinds, ⟨hfound, rfl⟩ | ⟨hnone, -⟩⟩ := accept_eq_ok haccept
  · have hrow : row ∈ s₁.commands.rows := List.mem_of_find?_eq_some hfound
    have heq : row = c' := by
      rcases hsame with hid | hsequence
      · refine Table.eq_of_mem_of_key_eq hrow hc' ?_
        rw [hbinds.commandId, hid, hcontent.commandId]
      · refine hsound.sequences row hrow c' hc' ?_
        have hrowsequence := hbinds.sequence
        rw [hcontent.sequence]
        omega
    subst heq
    refine ⟨rfl, hcontent, ?_⟩
    exact ⟨hcontent.commandId.symm.trans hbinds.commandId, by
      rw [← hcontent.sequence]
      exact hbinds.sequence, hcontent.request.symm.trans hbinds.request,
      hcontent.key.symm.trans hbinds.key⟩
  · -- the row is in the store, so it would have been found
    obtain ⟨hid, hsequence⟩ := existing?_eq_none.mp hnone c' hc'
    rw [hcontent.commandId] at hid
    rw [hcontent.sequence] at hsequence
    rcases hsame with h | h
    · exact absurd h.symm hid
    · exact absurd h.symm hsequence

/-- **The command protocol.** After any calls: the sequences above the acknowledged one have
no gap; a sequence names one command, and a command keeps its content, which a replay must
repeat; a terminal command stays as it is; the acknowledgement does not go back and has only
terminal commands below it; and the results to deliver are the terminal run above it, cut to
the limit. -/
theorem agent_command_protocol (hostId : String) (calls later : List AgentCall) :
    let s := (AgentStore.register hostId).runCalls calls
    let s' := s.runCalls later
    (∀ c ∈ s'.commands.rows, ∀ n, s'.acknowledged < n → n ≤ c.sequence →
      ∃ c' ∈ s'.commands.rows, c'.sequence = n) ∧
    (∀ c ∈ s'.commands.rows, ∀ c' ∈ s'.commands.rows,
      c.commandId = c'.commandId ∨ c.sequence = c'.sequence → c = c') ∧
    (∀ c ∈ s.commands.rows, (∃ c' ∈ s'.commands.rows, SameContent c c') ∧
      ∀ (q : Command) clock s₁ row, q.commandId = c.commandId ∨ q.sequence = (c.sequence : Int) →
        s'.accept q clock = .ok (s₁, row) → s₁ = s' ∧ SameContent c row ∧ Binds q c) ∧
    (∀ c ∈ s.commands.rows, c.state.terminal = true → c ∈ s'.commands.rows) ∧
    s.acknowledged ≤ s'.acknowledged ∧
    (∀ c ∈ s'.commands.rows, c.sequence ≤ s'.acknowledged → c.state.terminal = true) ∧
    ∃ run, TerminalRun s' run ∧ ∀ limit : Int, -2 ^ 63 ≤ limit ∧ limit < 2 ^ 63 →
      s'.pendingResults s'.hostId limit = .ok (sqlLimit limit run) := by
  intro s s'
  have hfollows : Follows s s' := follows_runCalls s later
  have hsound : Sound s' :=
    runCalls_induction (P := Sound) (fun h hmove => h.moves hmove) (Sound.runCalls hostId calls)
      later
  refine ⟨hsound.contiguous, ?_, ?_, hfollows.settled, hfollows.acknowledged, hsound.delivered,
    s'.undelivered.takeWhile (·.state.terminal), hsound.terminalRun,
    fun limit hlimit => pendingResults_eq s' hlimit⟩
  · intro c hc c' hc' hsame
    rcases hsame with hid | hsequence
    · exact Table.eq_of_mem_of_key_eq hc hc' hid
    · exact hsound.sequences c hc c' hc' hsequence
  · intro c hc
    exact ⟨hfollows.content c hc, fun q clock s₁ row hsame haccept =>
      hfollows.accept hsound hc hsame haccept⟩

end AgentStore

end Ophelia
