import Zebra.Ledger.SentHashes

namespace Zebra.Ledger

open Lib Std SendState

def Child (q : QueuedBlocks) (parent : BlockHash) (c : SemanticallyVerifiedBlock) : Prop :=
  q.blocks[c.hash]? = some c ∧ c.parentHash = parent

/-- The hashes of `root` and of its queued descendants. -/
inductive QueuedBelow (q : QueuedBlocks) (root : BlockHash) : BlockHash → Prop
  | root : QueuedBelow q root root
  | child {parent : BlockHash} {c : SemanticallyVerifiedBlock} :
      QueuedBelow q root parent → Child q parent c → QueuedBelow q root c.hash

/-- The queued descendants of `root` can be sent in the order of their heights. Their heights
go up by one, a block with queued grandchildren has no siblings with queued children, and no block
of the open batch is higher than the first blocks to send. -/
structure SendsInOrder (q : QueuedBlocks) (root : BlockHash) (s : SentHashes) : Prop where
  level : ∀ c c', Child q root c → Child q root c' → c'.height = c.height
  next : ∀ parent c d, QueuedBelow q root parent → Child q parent c → Child q c.hash d → d.height = c.height + 1
  narrow : ∀ parent c c' d' d e, QueuedBelow q root parent → Child q parent c → Child q parent c' →
    c.hash ≠ c'.hash → Child q c'.hash d' → Child q c.hash d → ¬ Child q d.hash e
  currBuf : ∀ c, Child q root c → ∀ e ∈ s.currBuf, e.2 ≤ c.height

variable {ε : Type} {q q' : QueuedBlocks} {root parent : BlockHash} {s : SendState} {parents : List BlockHash}
  {sent : SentHashes} {heightOf : BlockHash → Nat} {order : HashOrder} {room rounds : Nat}

theorem SendsInOrder.height_eq (h : SendsInOrder q root sent) (hp : QueuedBelow q root parent)
    {c c' : SemanticallyVerifiedBlock} (hc : Child q parent c) (hc' : Child q parent c') : c'.height = c.height := by
  cases hp with
  | root => exact h.level c c' hc hc'
  | child hp hb => rw [h.next _ _ c hp hb hc, h.next _ _ c' hp hb hc']

/-- What the loop keeps: the parents that are left have not sent their children yet, and
whenever a later one has children, the children of an earlier one are not higher and have none. -/
structure Pending (q : QueuedBlocks) (root : BlockHash) (heightOf : BlockHash → Nat) (s : SendState)
    (parents : List BlockHash) : Prop where
  parented : Parented s.queued
  queued : ∀ (hash : BlockHash) (b : SemanticallyVerifiedBlock),
    s.queued.blocks[hash]? = some b → q.blocks[hash]? = some b
  below : ∀ p ∈ parents, QueuedBelow q root p
  stack : parents.Pairwise fun p p' => ∀ c c', Child q p c → Child q p' c' →
    c.height ≤ c'.height ∧ ∀ d, ¬ Child q c.hash d
  currBuf : ∀ p ∈ parents, ∀ c, Child q p c → ∀ e ∈ s.sentHashes.currBuf, e.2 ≤ c.height
  prunable : Prunable s.sentHashes
  heights : HasHeights heightOf s.sentHashes

theorem sendChildren_spec (order : HashOrder) (s : SendState) (room : Nat) (bs : SemanticBlocks) :
    ∃ taken rest, bs = taken ++ rest ∧
      (sendChildren order s room bs).1.sentHashes = taken.foldl SentHashes.add s.sentHashes ∧
      ∀ room', (sendChildren order s room bs).2 = some room' →
        rest = [] ∧ (sendChildren order s room bs).1.queued = s.queued := by
  induction bs generalizing s room with
  | nil => exact ⟨[], [], by simp [sendChildren]⟩
  | cons b bs ih =>
    cases room with
    | zero => exact ⟨[b], bs, rfl, rfl, fun _ h => nomatch h⟩
    | succ room =>
      obtain ⟨taken, rest, rfl, hsent, hroom⟩ := ih (s.send b) room
      exact ⟨b :: taken, rest, rfl, hsent, hroom⟩

theorem Pending.send (hq : SendsInOrder q root sent) (hheights : ∀ c p, Child q p c → c.height = heightOf c.hash)
    (h : Pending q root heightOf s (parent :: parents)) {children taken : SemanticBlocks}
    (hd : Dequeues s.queued parent children q') (htaken : ∀ c ∈ taken, c ∈ children) :
    Prunable (taken.foldl SentHashes.add s.sentHashes) ∧
      HasHeights heightOf (taken.foldl SentHashes.add s.sentHashes) := by
  have hchild : ∀ c ∈ taken, Child q parent c := fun c hc => by
    obtain ⟨hc, hp⟩ := (hd.mem c).1 (htaken c hc)
    exact ⟨h.queued _ c hc, hp⟩
  refine ⟨?_, h.heights.addAll fun c hc => hheights c parent (hchild c hc)⟩
  cases taken with
  | nil => exact h.prunable
  | cons c taken =>
    have hc := hchild c List.mem_cons_self
    have hbelow := h.below parent List.mem_cons_self
    exact h.prunable.addAll (fun c' hc' => hq.height_eq hbelow hc (hchild c' hc'))
      (h.currBuf parent List.mem_cons_self c hc)

theorem Pending.step (hq : SendsInOrder q root sent) (hheights : ∀ c p, Child q p c → c.height = heightOf c.hash)
    (h : Pending q root heightOf s (parent :: parents)) {children : SemanticBlocks}
    (hd : Dequeues s.queued parent children q') {s' : SendState} (hqueued : s'.queued = q')
    (hsent : s'.sentHashes = children.foldl SentHashes.add s.sentHashes) :
    Pending q root heightOf s' ((children.map (·.hash)).reverse ++ parents) := by
  have hbelow := h.below parent List.mem_cons_self
  have hchild : ∀ c ∈ children, Child q parent c := fun c hc => by
    obtain ⟨hc, hp⟩ := (hd.mem c).1 hc
    exact ⟨h.queued _ c hc, hp⟩
  obtain ⟨hfirst, hstack⟩ := List.pairwise_cons.1 h.stack
  obtain ⟨hprunable, hhas⟩ := h.send hq hheights hd fun c hc => hc
  refine ⟨hqueued ▸ hd.parented, ?_, ?_, ?_, ?_, hsent ▸ hprunable, hsent ▸ hhas⟩
  · intro hash b hb
    rw [hqueued, hd.getElem?_iff h.parented] at hb
    exact h.queued hash b hb.1
  · intro p hp
    rcases List.mem_append.1 hp with hp | hp
    · obtain ⟨c, hc, rfl⟩ := List.mem_map.1 (List.mem_reverse.1 hp)
      exact hbelow.child (hchild c hc)
    · exact h.below p (List.mem_cons_of_mem _ hp)
  · refine List.pairwise_append.2 ⟨?_, hstack, ?_⟩
    · -- siblings: if the later one has children, the earlier one has no grandchildren
      refine (List.nodup_reverse.2 hd.nodup).imp_of_mem fun hx hy hne d d' hdx hdy => ?_
      obtain ⟨c, hc, rfl⟩ := List.mem_map.1 (List.mem_reverse.1 hx)
      obtain ⟨c', hc', rfl⟩ := List.mem_map.1 (List.mem_reverse.1 hy)
      have hcc := hq.height_eq hbelow (hchild c hc) (hchild c' hc')
      have hdc := hq.next parent c d hbelow (hchild c hc) hdx
      have hdc' := hq.next parent c' d' hbelow (hchild c' hc') hdy
      refine ⟨by omega, fun e => ?_⟩
      exact hq.narrow parent c c' d' d e hbelow (hchild c hc) (hchild c' hc') hne hdy hdx
    · -- if a parent further down has children, the new parents have none
      intro x hx p hp d c' hdx hc'
      obtain ⟨c, hc, rfl⟩ := List.mem_map.1 (List.mem_reverse.1 hx)
      exact absurd hdx ((hfirst p hp c c' (hchild c hc) hc').2 d)
  · intro p hp d hdp e he
    rw [hsent, currBuf_addAll, List.mem_append, List.mem_map] at he
    rcases List.mem_append.1 hp with hp | hp
    · obtain ⟨c, hc, rfl⟩ := List.mem_map.1 (List.mem_reverse.1 hp)
      have hnext := hq.next parent c d hbelow (hchild c hc) hdp
      rcases he with he | ⟨c', hc', rfl⟩
      · have hle := h.currBuf parent List.mem_cons_self c (hchild c hc) e he
        omega
      · have hcc := hq.height_eq hbelow (hchild c hc) (hchild c' hc')
        simp only
        omega
    · rcases he with he | ⟨c', hc', rfl⟩
      · exact h.currBuf p (List.mem_cons_of_mem _ hp) d hdp e he
      · exact (hfirst p hp c' d (hchild c' hc') hdp).1

theorem Pending.sendLoop (hq : SendsInOrder q root sent)
    (hheights : ∀ c p, Child q p c → c.height = heightOf c.hash) (h : Pending q root heightOf s parents)
    {s' : SendState} (hloop : (sendLoop order rounds s room parents : Exec ε _) = .ok s') :
    Prunable s'.sentHashes ∧ HasHeights heightOf s'.sentHashes := by
  induction rounds generalizing s room parents with
  | zero =>
    cases hloop
    exact ⟨h.prunable, h.heights⟩
  | succ rounds ih =>
    cases parents with
    | nil =>
      cases hloop
      exact ⟨h.prunable.finishBatch, h.heights.finishBatch⟩
    | cons parent parents =>
      obtain ⟨children, q', hq', hd⟩ := h.parented.dequeueChildren order parent
      rw [SendState.sendLoop, hq', Outcome.ok_bind] at hloop
      obtain ⟨taken, rest, htaken, hsent, hroom⟩ := sendChildren_spec order { s with queued := q' } room children
      dsimp only at hloop
      cases hres : sendChildren order { s with queued := q' } room children with
      | mk s₁ left =>
        rw [hres] at hloop hsent hroom
        cases left with
        | none =>
          cases hloop
          rw [hsent]
          exact h.send hq hheights hd fun c hc => htaken ▸ List.mem_append_left _ hc
        | some room' =>
          obtain ⟨rfl, hqueued⟩ := hroom room' rfl
          rw [List.append_nil] at htaken
          subst htaken
          exact ih (h.step hq hheights hd hqueued hsent) hloop

theorem Dequeues.size {children : SemanticBlocks} (hd : Dequeues q parent children q') :
    q'.blocks.size + children.length = q.blocks.size := by
  rw [hd.blocks, ← List.length_map (·.hash)]
  refine KeyedMap.size_eraseAll hd.nodup fun x hx => ?_
  obtain ⟨c, hc, rfl⟩ := List.mem_map.1 hx
  exact mem_of_getElem? ((hd.mem c).1 hc).1

/-- The loop never panics, and it ends before it runs out of rounds: more rounds change
nothing. -/
theorem sendLoop_ends (h : Parented s.queued) (hrounds : s.queued.blocks.size + parents.length < rounds) :
    ∃ s', ∀ more, (sendLoop order (rounds + more) s room parents : Exec ε _) = .ok s' := by
  induction rounds generalizing s room parents with
  | zero => omega
  | succ rounds ih =>
    cases parents with
    | nil => exact ⟨_, fun more => by rw [Nat.add_right_comm]; rfl⟩
    | cons parent parents =>
      obtain ⟨children, q', hq', hd⟩ := h.dequeueChildren order parent
      have hsize := hd.size
      obtain ⟨taken, rest, -, -, hroom⟩ := sendChildren_spec order { s with queued := q' } room children
      cases hres : sendChildren order { s with queued := q' } room children with
      | mk s₁ left =>
        rw [hres] at hroom
        have hround : ∀ more, (sendLoop order (rounds + 1 + more) s room (parent :: parents) : Exec ε _) =
            left.elim (.ok s₁) fun room =>
              sendLoop order (rounds + more) s₁ room ((children.map (·.hash)).reverse ++ parents) := by
          intro more
          rw [Nat.add_right_comm, SendState.sendLoop, hq', Outcome.ok_bind]
          dsimp only
          rw [hres]
          cases left <;> rfl
        cases left with
        | none => exact ⟨s₁, hround⟩
        | some room' =>
          obtain ⟨-, hqueued⟩ := hroom room' rfl
          have hleft : s₁.queued.blocks.size + ((children.map (·.hash)).reverse ++ parents).length < rounds := by
            rw [hqueued, List.length_append, List.length_reverse, List.length_map]
            rw [List.length_cons] at hrounds
            dsimp only
            omega
          obtain ⟨s', hs'⟩ := ih (hqueued ▸ hd.parented) hleft
          exact ⟨s', fun more => (hround more).trans (hs' more)⟩

def Descendant (q : QueuedBlocks) (root : BlockHash) (b : SemanticallyVerifiedBlock) : Prop :=
  ∃ parent, QueuedBelow q root parent ∧ Child q parent b

/-- The parent of every block is known or comes before it. -/
def ParentsFirst : List BlockHash → SemanticBlocks → Prop
  | _, [] => True
  | known, b :: bs => b.parentHash ∈ known ∧ ParentsFirst (b.hash :: known) bs

theorem ParentsFirst.mono {known known' : List BlockHash} {bs : SemanticBlocks} (h : ParentsFirst known bs)
    (hsub : known ⊆ known') : ParentsFirst known' bs := by
  induction bs generalizing known known' with
  | nil => trivial
  | cons b bs ih => exact ⟨hsub h.1, ih h.2 (List.cons_subset_cons _ hsub)⟩

theorem parentsFirst_of_forall {known : List BlockHash} {bs : SemanticBlocks}
    (h : ∀ b ∈ bs, b.parentHash ∈ known) : ParentsFirst known bs := by
  induction bs with
  | nil => trivial
  | cons b bs ih =>
    refine ⟨h b List.mem_cons_self, ?_⟩
    exact (ih fun b' hb' => h b' (List.mem_cons_of_mem _ hb')).mono (List.subset_cons_self _ _)

theorem ParentsFirst.append {known : List BlockHash} {bs bs' : SemanticBlocks} (h : ParentsFirst known bs)
    (h' : ParentsFirst (bs.map (·.hash) ++ known) bs') : ParentsFirst known (bs ++ bs') := by
  induction bs generalizing known with
  | nil => exact h'
  | cons b bs ih => exact ⟨h.1, ih h.2 (h'.mono List.perm_middle.symm.subset)⟩

theorem Child.eq {c c' : SemanticallyVerifiedBlock} {parent' : BlockHash} (hc : Child q parent c) (hc' : Child q parent' c')
    (hhash : c.hash = c'.hash) : c = c' :=
  Option.some.inj ((hc.1.symm.trans (congrArg _ hhash)).trans hc'.1)

/-- The loop between two rounds, after `sent`. A parent is left as long as it has children that
were not sent. -/
structure Delivers (q : QueuedBlocks) (root : BlockHash) (s : SendState) (sent : SemanticBlocks)
    (parents : List BlockHash) : Prop where
  parented : Parented s.queued
  kept : ∀ (hash : BlockHash) (b : SemanticallyVerifiedBlock),
    s.queued.blocks[hash]? = some b ↔ q.blocks[hash]? = some b ∧ b ∉ sent
  descend : ∀ b ∈ sent, Descendant q root b
  once : (sent.map (·.hash)).Nodup
  first : ParentsFirst [root] sent
  known : ∀ p ∈ parents, p = root ∨ p ∈ sent.map (·.hash)
  done : ∀ p, p = root ∨ p ∈ sent.map (·.hash) → p ∈ parents ∨ ∀ b, Child q p b → b ∈ sent

theorem delivers_start (hq : Parented q) (sentHashes : SentHashes) (channel : SemanticBlocks)
    (answers : List (BlockHash × CommitBlockError)) (root : BlockHash) :
    Delivers q root ⟨q, sentHashes, channel, answers⟩ [] [root] where
  parented := hq
  kept hash b := by simp
  descend b hb := nomatch hb
  once := List.nodup_nil
  first := trivial
  known p hp := .inl (List.mem_singleton.1 hp)
  done p hp := .inl (List.mem_singleton.2 (by simpa using hp))

variable {sent children : SemanticBlocks}

theorem Delivers.mem_children (h : Delivers q root s sent (parent :: parents)) (hd : Dequeues s.queued parent children q')
    (c : SemanticallyVerifiedBlock) : c ∈ children ↔ Child q parent c ∧ c ∉ sent := by
  rw [hd.mem, h.kept, and_right_comm]
  rfl

theorem Delivers.below (h : Delivers q root s sent (parent :: parents)) : QueuedBelow q root parent := by
  rcases h.known parent List.mem_cons_self with rfl | hp
  · exact .root
  · obtain ⟨b, hb, rfl⟩ := List.mem_map.1 hp
    obtain ⟨p, hp, hc⟩ := h.descend b hb
    exact hp.child hc

theorem Delivers.step (hq : Parented q) (h : Delivers q root s sent (parent :: parents))
    (hd : Dequeues s.queued parent children q') {s' : SendState} (hqueued : s'.queued = q') :
    Delivers q root s' (sent ++ children) ((children.map (·.hash)).reverse ++ parents) := by
  have hmem := h.mem_children hd
  refine ⟨hqueued ▸ hd.parented, fun hash b => ?_, fun b hb => ?_, ?_, ?_, fun p hp => ?_, fun p hp => ?_⟩
  · rw [hqueued, hd.getElem?_iff h.parented, h.kept, List.mem_append, hmem, not_or, and_assoc]
    refine and_congr_right fun hb => ?_
    obtain rfl := hq.keyed hash b hb
    simp only [Child, hb, true_and, not_and_or, not_not]
    tauto
  · rcases List.mem_append.1 hb with hb | hb
    · exact h.descend b hb
    · exact ⟨parent, h.below, ((hmem b).1 hb).1⟩
  · rw [List.map_append]
    refine List.nodup_append.2 ⟨h.once, hd.nodup, fun x hx y hy hxy => ?_⟩
    obtain ⟨b, hb, rfl⟩ := List.mem_map.1 hx
    obtain ⟨c, hc, rfl⟩ := List.mem_map.1 hy
    obtain ⟨p, -, hb'⟩ := h.descend b hb
    obtain ⟨hc', hnot⟩ := (hmem c).1 hc
    exact hnot (hb'.eq hc' hxy ▸ hb)
  · refine h.first.append (parentsFirst_of_forall fun c hc => ?_)
    rw [((hmem c).1 hc).1.2, List.mem_append, List.mem_singleton]
    exact (h.known parent List.mem_cons_self).symm
  · rw [List.map_append, List.mem_append]
    rcases List.mem_append.1 hp with hp | hp
    · exact .inr (.inr (List.mem_reverse.1 hp))
    · exact (h.known p (List.mem_cons_of_mem _ hp)).imp_right .inl
  · rw [List.map_append, List.mem_append, ← or_assoc] at hp
    rcases hp with hp | hp
    · rcases h.done p hp with hp | hall
      · rcases List.mem_cons.1 hp with rfl | hp
        · refine .inr fun b hb => List.mem_append.2 ?_
          by_cases hsent : b ∈ sent
          · exact .inl hsent
          · exact .inr ((hmem b).2 ⟨hb, hsent⟩)
        · exact .inl (List.mem_append_right _ hp)
      · exact .inr fun b hb => List.mem_append_left _ (hall b hb)
    · exact .inl (List.mem_append_left _ (List.mem_reverse.2 hp))

theorem sendChildren_of_room (order : HashOrder) (s : SendState) {bs : SemanticBlocks} (h : bs.length ≤ room) :
    sendChildren order s room bs =
      ({ s with sentHashes := bs.foldl SentHashes.add s.sentHashes, channel := s.channel ++ bs }, some (room - bs.length)) := by
  induction bs generalizing s room with
  | nil => simp [sendChildren]
  | cons b bs ih =>
    cases room with
    | zero => simp at h
    | succ room =>
      rw [sendChildren, ih (s.send b) (Nat.le_of_succ_le_succ h), List.length_cons, Nat.add_sub_add_right]
      simp [send]

theorem Delivers.sendLoop {channel : SemanticBlocks} (h : Delivers q root s sent parents) (order : HashOrder)
    (hq : Parented q)
    (hchannel : s.channel = channel ++ sent) (hroom : s.queued.blocks.size ≤ room)
    (hrounds : s.queued.blocks.size + parents.length < rounds) :
    ∃ s' sent', (∀ more, (sendLoop order (rounds + more) s room parents : Exec ε _) = .ok s') ∧
      s'.channel = channel ++ sent' ∧ s'.answers = s.answers ∧ Delivers q root s' sent' [] := by
  induction rounds generalizing s sent room parents with
  | zero => omega
  | succ rounds ih =>
    cases parents with
    | nil =>
      refine ⟨{ s with sentHashes := s.sentHashes.finishBatch }, sent, fun more => by rw [Nat.add_right_comm]; rfl, hchannel, rfl, ?_⟩
      exact ⟨h.parented, h.kept, h.descend, h.once, h.first, h.known, h.done⟩
    | cons parent parents =>
      obtain ⟨children, q', hq', hd⟩ := h.parented.dequeueChildren order parent
      have hsize := hd.size
      have hsend := sendChildren_of_room order { s with queued := q' } (show children.length ≤ room by omega)
      have hnext : Delivers q root
          ⟨q', children.foldl SentHashes.add s.sentHashes, s.channel ++ children, s.answers⟩ (sent ++ children)
          ((children.map (·.hash)).reverse ++ parents) := h.step hq hd rfl
      have hroom' : q'.blocks.size ≤ room - children.length := by omega
      have hrounds' : q'.blocks.size + ((children.map (·.hash)).reverse ++ parents).length < rounds := by
        rw [List.length_append, List.length_reverse, List.length_map]
        rw [List.length_cons] at hrounds
        omega
      obtain ⟨s', sent', hloop, hchannel', hanswers, hend⟩ := ih hnext
        (by rw [hchannel, List.append_assoc]) hroom' hrounds'
      refine ⟨s', sent', fun more => ?_, hchannel', hanswers, hend⟩
      rw [Nat.add_right_comm, SendState.sendLoop, hq', Outcome.ok_bind]
      dsimp only
      rw [hsend]
      exact hloop more

theorem Delivers.mem_iff (h : Delivers q root s sent []) (b : SemanticallyVerifiedBlock) : b ∈ sent ↔ Descendant q root b := by
  have hbelow : ∀ p, QueuedBelow q root p → p = root ∨ p ∈ sent.map (·.hash) := by
    intro p hp
    induction hp with
    | root => exact .inl rfl
    | child _ hc ih =>
      have hall := (h.done _ ih).resolve_left List.not_mem_nil
      exact .inr (List.mem_map_of_mem (hall _ hc))
  refine ⟨h.descend b, ?_⟩
  rintro ⟨parent, hparent, hb⟩
  exact (h.done parent (hbelow parent hparent)).resolve_left List.not_mem_nil b hb

end Zebra.Ledger
