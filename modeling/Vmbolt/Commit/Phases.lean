import Vmbolt.Commit.Frame

/-!
# The phases of a commit

`Tx.Commit` goes over the handles of the transaction three times: it rebalances the trees, spills
them and collects their roots. The order in which it meets the handles is arbitrary. `TxRun.loop` is
the argument for the first two phases: each pass takes one handle from a local statement to another
one and spares the others. The third phase detaches the nodes from their handles, which no tree
shows.
-/

namespace Vmbolt
open Filter Prog

/-- One pass of the first two loops of `Tx.Commit`: `f` on the handle for a name. -/
def Tx.onHandle (t : TxId) (name : Name) (f : BucketId → Go Unit) : Go Unit := do
  let tx ← get t
  match tx.bctx.lookup name with
  | none => pure ()
  | some b => f b

/-- The transaction `t` can write and its working map is in order. -/
structure TxRun (dead : Finset TxId) (F : Set NodeId) (w : World) (t : TxId) : Prop where
  sound : w.Sound
  iso : Iso dead F w
  alive : t ∉ dead
  opened : (w.txs t).db = true
  writable : (w.txs t).writable = true
  named : ∀ name b, (w.txs t).bctx.lookup name = some b → (w.buckets b).name = name

/-- From `w` to `w'` the transaction `t` has worked on its handles. -/
structure Passed (dead : Finset TxId) (F : Set NodeId) (t : TxId) (w w' : World) : Prop where
  run : TxRun dead F w' t
  works : Works dead F w w'
  rt : w'.rt = w.rt
  nextNode : w.nextNode ≤ w'.nextNode

/-- The tree of the handle holds `m` and can be spilled. -/
def Ready (m : SortedMap Bytes Bytes) (w : World) (b : BucketId) : Prop :=
  ∃ g r H, contents w H r = m.entries ∧ (Untouched w b g r H ∨ (HandleBut w b g r H none ∧
    (∀ n, g.lvl n = some 0 → n ≠ r → w.inodes n ≠ []) ∧ spillFits w b H r = true))

/-- What `Bucket.publishRoot` returns. -/
def Bucket.toPublish (w : World) (b : BucketId) : Option BucketState :=
  match (w.buckets b).rootNode with
  | none => Bucket.baseState w b
  | some r => some ⟨some r⟩

/-- The published bucket is a committed tree that holds `m`. -/
def StateHolds (w : World) (st : Option BucketState) (m : SortedMap Bytes Bytes) : Prop :=
  ∃ bs g r H, st = some bs ∧ bs.root = some r ∧ Committed w g r H ∧ contents w H r = m.entries

/-- The tree of the handle holds `m` and can be published. -/
def Settled (m : SortedMap Bytes Bytes) (w : World) (b : BucketId) : Prop :=
  StateHolds w (Bucket.toPublish w b) m

section
variable {w w' w1 : World} {b b' : BucketId} {dead : Finset TxId} {F : Set NodeId} {t : TxId}
  {name : Name} {m : SortedMap Bytes Bytes} {st : Option BucketState}

lemma onHandle_none (hb : (w.txs t).bctx.lookup name = none) (f : BucketId → Go Unit) :
    Tx.onHandle t name f w = (.ok (), w) := by
  unfold Tx.onHandle Tx.get
  rw [Prog.read_bind, hb]
  rfl

lemma onHandle_some (hb : (w.txs t).bctx.lookup name = some b) (f : BucketId → Go Unit) :
    Tx.onHandle t name f w = f b w := by
  unfold Tx.onHandle Tx.get
  rw [Prog.read_bind, hb]

namespace TxRun

lemma live (h : TxRun dead F w t) (hb : (w.txs t).bctx.lookup name = some b) : Live w dead b :=
  h.iso.live_bctx h.opened h.writable h.alive hb

/-- Different names have different handles. -/
lemma handle_ne (h : TxRun dead F w t) {name' : Name} (hb : (w.txs t).bctx.lookup name = some b)
    (hb' : (w.txs t).bctx.lookup name' = some b') (hne : name' ≠ name) : b' ≠ b := by
  rintro rfl
  exact hne ((h.named _ _ hb').symm.trans (h.named _ _ hb))

/-- Work on a handle. -/
lemma within (h : TxRun dead F w t) (hb : (w.txs t).bctx.lookup name = some b)
    (hw : Within w b F w') (hs : w'.Sound) : TxRun dead F w' t := by
  refine ⟨hs, (h.iso.keeps (h.live hb) hw).iso, h.alive, by rw [hw.txs]; exact h.opened,
    by rw [hw.txs]; exact h.writable, fun name b' hb' => ?_⟩
  rw [hw.txs] at hb'
  by_cases e : b' = b
  · rw [e, hw.handle_name, ← e]
    exact h.named name b' hb'
  · rw [hw.bucket b' e]
    exact h.named name b' hb'

/-- Go through handles, one after the other. What a pass asks for besides `P` may depend on the
state in which the loop comes to it (`C`). -/
lemma loop {ι : Type} (nameOf : ι → Name) (f : Nat → ι → BucketId → Go Unit)
    {P Q : Name → World → BucketId → Prop} {C : List ι → World → Prop}
    (hP : ∀ name, Local (P name)) (hQ : ∀ name, Local (Q name))
    (hC : ∀ i l w, C (i :: l) w → ∀ v,
      Evals (fun k => Tx.onHandle t (nameOf i) (f k i)) w () v → C l v)
    (hstay : ∀ k i w b, Iso dead F w → Live w dead b → Stays (Along w b F) w (f k i b)
      fun _ _ => True)
    {l : List ι}
    (hstep : ∀ i ∈ l, ∀ l' w b, C (i :: l') w → (w.txs t).bctx.lookup (nameOf i) = some b →
      w.Sound → P (nameOf i) w b →
      ∃ w', Evals (fun k => f k i b) w () w' ∧ w'.Sound ∧ Q (nameOf i) w' b)
    (hl : (l.map nameOf).Nodup) (hc : C l w) (h : TxRun dead F w t)
    (hpre : ∀ name b, (w.txs t).bctx.lookup name = some b →
      (name ∈ l.map nameOf → P name w b) ∧ (name ∉ l.map nameOf → Q name w b)) :
    ∃ w', Evals (fun k => Prog.each (fun i => Tx.onHandle t (nameOf i) (f k i)) l) w () w' ∧
      Passed dead F t w w' ∧ ∀ name b, (w.txs t).bctx.lookup name = some b → Q name w' b := by
  induction l generalizing w with
  | nil => exact ⟨w, .pure, ⟨h, h.iso.works_refl, rfl, le_rfl⟩,
      fun name b hb => (hpre name b hb).2 List.not_mem_nil⟩
  | cons i l ih =>
    rw [List.map_cons, List.nodup_cons] at hl
    rcases hb : (w.txs t).bctx.lookup (nameOf i) with _ | b
    · -- no handle: nothing happens
      have hpre' : ∀ name b, (w.txs t).bctx.lookup name = some b →
          (name ∈ l.map nameOf → P name w b) ∧ (name ∉ l.map nameOf → Q name w b) := by
        intro name b' hb'
        have hne : name ≠ nameOf i := fun e => by rw [e, hb] at hb'; cases hb'
        obtain ⟨h1, h2⟩ := hpre name b' hb'
        exact ⟨fun hm => h1 (.tail _ hm), fun hm => h2 fun hc =>
          hm ((List.mem_cons.1 hc).resolve_left hne)⟩
      have hnone : Evals (fun k => Tx.onHandle t (nameOf i) (f k i)) w () w :=
        .of_forall fun k => onHandle_none hb _
      obtain ⟨w', e, h'⟩ := ih (fun j hj => hstep j (.tail _ hj)) hl.2 (hC i l w hc w hnone) h hpre'
      exact ⟨w', e.mono fun k hk => (Prog.bind_ok (onHandle_none hb _)).trans hk, h'⟩
    · obtain ⟨w1, e1, s1, q1⟩ := hstep i (by simp) l w b hc hb h.sound ((hpre _ b hb).1 (by simp))
      have honce : Evals (fun k => Tx.onHandle t (nameOf i) (f k i)) w () w1 :=
        e1.mono fun k hk => (onHandle_some hb _).trans hk
      have hlive := h.live hb
      have hin : Within w b F w1 := by
        obtain ⟨k, hk⟩ := e1.exists
        have hk : f k i b w = (.ok (), w1) := hk
        have := (hstay k i w b h.iso hlive).1.within
        rwa [hk] at this
      have h1 := h.within hb hin s1
      have hworks : Works dead F w w1 := ⟨h.iso.keeps hlive hin, hin.txs, hin.db⟩
      obtain ⟨w', e2, h2, q2⟩ := ih (fun j hj => hstep j (.tail _ hj)) hl.2
        (hC i l w hc w1 honce) h1 (by
        intro name b' hb'
        rw [hin.txs] at hb'
        by_cases hne : name = nameOf i
        · subst hne
          rw [hb] at hb'
          cases hb'
          exact ⟨fun hm => absurd hm hl.1, fun _ => q1⟩
        · have hsp := hin.spares h.iso hlive s1 (h.handle_ne hb hb' hne) (h.live hb')
          obtain ⟨p1, p2⟩ := hpre name b' hb'
          exact ⟨fun hm => hP name h.iso (h.live hb') hsp (p1 (.tail _ hm)),
            fun hm => hQ name h.iso (h.live hb') hsp
              (p2 fun hc => hm ((List.mem_cons.1 hc).resolve_left hne))⟩)
      refine ⟨w', ?_, ⟨h2.run, Track.trans hworks h2.works, h2.rt.trans hin.rt,
        hin.nextNode.trans h2.nextNode⟩, fun name b' hb' => q2 name b' ?_⟩
      · filter_upwards [honce, e2] with k hk1 hk2
        exact (Prog.bind_ok hk1).trans hk2
      · rw [hin.txs]
        exact hb'

end TxRun

/-! ## Spilling -/

lemma Ready.local (m : SortedMap Bytes Bytes) : Local (Ready m) := by
  rintro dead F w w' b hi hb hs ⟨g, r, H, hm, hu | ⟨hh, hne, hf⟩⟩
  · obtain ⟨h1, hc⟩ := hu.spared hi hb hs
    exact ⟨g, r, H, hc.trans hm, .inl h1⟩
  · obtain ⟨h1, hc⟩ := hh.spared hi hb hs
    have htree : ∀ {n d}, g.lvl n = some d → w'.nodes n = w.nodes n ∧ w'.inodes n = w.inodes n :=
      fun hn => hs.node (hi.mem_tree hb hh.tree (.inl ((hi.handle b hb).dirty r hh.root_dirty)) hn)
    refine ⟨g, r, H, hc.trans hm, .inr ⟨h1, fun n hn hnr => ?_, ?_⟩⟩
    · rw [(htree hn).2]
      exact hne n hn hnr
    · have hu : ∀ n d, g.lvl n = some d → (Unspilled w' b n ↔ Unspilled w b n) := fun n d hn => by
        unfold Unspilled
        rw [hs.bucket, (htree hn).1]
      have hth : w'.threshold b = w.threshold b := by
        unfold World.threshold
        rw [hs.rt, hs.bucket]
      rw [spillFits_congr hh.tree (fun n d hn => (htree hn).2) hu hth hh.tree.lvl_root]
      exact hf

lemma StateHolds.same {S : Set NodeId} (h : StateHolds w st m)
    (hS : ∀ bs g r H, st = some bs → bs.root = some r → TreeOK w g r H →
      ∀ n d, g.lvl n = some d → n ∈ S)
    (hnext : w.nextNode ≤ w'.nextNode)
    (hs : ∀ n ∈ S, (w'.nodes n).isLeaf = (w.nodes n).isLeaf ∧ (w'.nodes n).key = (w.nodes n).key ∧
      w'.inodes n = w.inodes n) : StateHolds w' st m := by
  obtain ⟨bs, g, r, H, h1, h2, hc, hm⟩ := h
  have hS' := hS bs g r H h1 h2 hc.tree
  have hsb : SameBut g ∅ w w' := ⟨hnext, fun n d hn _ => (hs n (hS' n d hn)).1,
    fun n d hn _ => (hs n (hS' n d hn)).2.1, fun n d hn _ => (hs n (hS' n d hn)).2.2⟩
  exact ⟨bs, g, r, H, h1, h2, hc.same hsb, (hc.tree.contents_same hsb hc.tree.lvl_root).trans hm⟩

/-- The root that is going to be published belongs to the handle or is published. -/
lemma Iso.toPublish_mem (hi : Iso dead F w) (hb : Live w dead b) {bs : BucketState} {r : NodeId}
    (h1 : Bucket.toPublish w b = some bs) (h2 : bs.root = some r) : Own w b r ∨ r ∈ F := by
  unfold Bucket.toPublish at h1
  split at h1
  · exact .inr (hi.base_mem (Option.bind_eq_some_iff.2 ⟨bs, h1, h2⟩))
  next r' hr =>
    cases h1
    obtain rfl := Option.some.inj h2
    exact .inl ((hi.handle b hb).root _ hr)

lemma Settled.local (m : SortedMap Bytes Bytes) : Local (Settled m) := by
  intro dead F w w' b hi hb hs h
  have hpub : Bucket.toPublish w' b = Bucket.toPublish w b := by
    unfold Bucket.toPublish
    rw [hs.bucket, hs.base]
  unfold Settled
  rw [hpub]
  refine StateHolds.same (S := {n | Own w b n ∨ n ∈ F}) h (fun bs g r H h1 h2 ht n d hn =>
    hi.mem_tree hb ht (hi.toPublish_mem hb h1 h2) hn) hs.nextNode fun n hn => ?_
  obtain ⟨h1, h2⟩ := hs.node hn
  exact ⟨by rw [h1], by rw [h1], h2⟩

/-- `Bucket.spill` of a handle that is ready. -/
lemma Ready.spill (h : Ready m w b) (hw : w.Sound) :
    ∃ w', Evals (fun k => Bucket.spill k b) w () w' ∧ w'.Sound ∧ Settled m w' b := by
  obtain ⟨g, r, H, hm, hu | ⟨hh, hne, hf⟩⟩ := h
  · refine ⟨w, .of_forall fun k => spill_none hu.rootNode k, hw, ?_⟩
    obtain ⟨bs, h1, h2⟩ := Option.bind_eq_some_iff.1 hu.base
    refine ⟨bs, g, r, H, ?_, h2, hu.tree, hm⟩
    unfold Bucket.toPublish
    rw [hu.rootNode, h1]
  · obtain ⟨w', g', R, H', e, hs⟩ := hh.spill hne hf
    refine ⟨w', e, hs.sound, ⟨some R⟩, g', R, H', ?_, rfl, hs.tree, hs.contents.trans hm⟩
    unfold Bucket.toPublish
    rw [hs.rootNode]

/-- The second phase of a commit. -/
lemma TxRun.spillAll {P Q : Name → World → BucketId → Prop} (order : List Name)
    (h : TxRun dead F w t) (hP : ∀ name, Local (P name)) (hQ : ∀ name, Local (Q name))
    (hstep : ∀ name w b, w.Sound → P name w b →
      ∃ w', Evals (fun k => Bucket.spill k b) w () w' ∧ w'.Sound ∧ Q name w' b) (hd : order.Nodup)
    (hall : ∀ name b, (w.txs t).bctx.lookup name = some b → name ∈ order)
    (hpre : ∀ name b, (w.txs t).bctx.lookup name = some b → P name w b) :
    ∃ w', Evals (fun k => Tx.spillAll k t order) w () w' ∧ Passed dead F t w w' ∧
      ∀ name b, (w.txs t).bctx.lookup name = some b → Q name w' b := by
  refine h.loop id (fun k _ b => Bucket.spill k b) (C := fun _ _ => True) hP hQ
    (fun _ _ _ _ _ _ => trivial) (fun k i w b hi hl => stays_spill (hi.within hl))
    (fun name _ _ w b _ _ hw hr => hstep name w b hw hr) (by rwa [List.map_id]) trivial
    fun name b hb => ⟨fun _ => hpre name b hb, fun hn => absurd ?_ hn⟩
  rw [List.map_id]
  exact hall name b hb

/-! ## Rebalancing -/

/-- Nodes that are not flagged are not rebalanced. -/
lemma rebalance_unflagged (h : ∀ n ∈ (w.buckets b).dirty, (w.nodes n).unbalanced = false) (k : Nat)
    (order : List NodeId) : Bucket.rebalance (k + 1) b order w = (.ok (), w) := by
  refine Prog.each_noop fun n _ => ?_
  unfold bucketOf
  rw [Prog.read_bind]
  split
  next hn =>
    unfold Node.rebalance nodeOf
    rw [Prog.read_bind, h n hn]
    rfl
  next => rfl

/-- The first phase of a commit. -/
lemma TxRun.rebalanceAll {P Q : Name → World → BucketId → Prop} {order : List (Name × List NodeId)}
    {C : List (Name × List NodeId) → World → Prop} (h : TxRun dead F w t)
    (hP : ∀ name, Local (P name)) (hQ : ∀ name, Local (Q name))
    (hC : ∀ o l w, C (o :: l) w → ∀ v, Evals (fun k => Tx.rebalanceAll k t [o]) w () v → C l v)
    (hstep : ∀ o ∈ order, ∀ l w b, C (o :: l) w → (w.txs t).bctx.lookup o.1 = some b → w.Sound →
      P o.1 w b → ∃ w', Evals (fun k => Bucket.rebalance k b o.2) w () w' ∧ w'.Sound ∧ Q o.1 w' b)
    (hd : (order.map Prod.fst).Nodup) (hc : C order w)
    (hall : ∀ name b, (w.txs t).bctx.lookup name = some b → name ∈ order.map Prod.fst)
    (hpre : ∀ name b, (w.txs t).bctx.lookup name = some b → P name w b) :
    ∃ w', Evals (fun k => Tx.rebalanceAll k t order) w () w' ∧ Passed dead F t w w' ∧
      ∀ name b, (w.txs t).bctx.lookup name = some b → Q name w' b := by
  refine h.loop Prod.fst (fun k o b => Bucket.rebalance k b o.2) hP hQ
    (fun o l w hc v e => hC o l w hc v (e.mono fun k hk => (Prog.bind_ok hk).trans rfl))
    (fun k o w b hi hl => stays_bucketRebalance (hi.within hl) (hi.closed hl)) hstep hd hc
    fun name b hb => ⟨fun _ => hpre name b hb, fun hn => absurd (hall name b hb) hn⟩

/-! ## Publishing -/

/-- `Bucket.detachPublishedNodes`. -/
lemma detachPublishedNodes_eq (hw : w.Sound) :
    ∃ w', Bucket.detachPublishedNodes b w = (.ok (), w') ∧
    w'.Sound ∧ (∀ b', b' ≠ b → w'.buckets b' = w.buckets b') ∧ w'.txs = w.txs := by
  let v : World := { w with
    nodes := fun n =>
      if n ∈ (w.buckets b).dirty then { w.nodes n with bucket := none, parent := none }
      else w.nodes n }
  have hslice : ∀ n, (v.nodes n).inodes = (w.nodes n).inodes := by
    intro n
    simp only [v]
    split <;> rfl
  have hv : v.Sound := by
    refine ⟨hw.cut, fun n hn => ?_, fun n hn => ?_⟩
    · have := hw.arr_lt n hn
      unfold World.arr at this ⊢
      rwa [hslice]
    · have := hw.len_le n hn
      unfold World.arr at this ⊢
      rwa [hslice]
  obtain ⟨w', e, hs, hq, hr, -⟩ := modifyBucket_eq (b := b)
    (f := fun bk => { bk with rootNode := none, dirty := ∅ }) hv rfl rfl rfl
  refine ⟨w', ?_, hs, hq.other, hq.txs⟩
  unfold Bucket.detachPublishedNodes bucketOf
  rw [Prog.read_bind, Prog.bind_ok (write_eq hw.cut)]
  exact e

/-- `Bucket.publishRoot`. -/
lemma publishRoot_eq (hw : w.Sound) :
    ∃ w', Bucket.publishRoot b w = (.ok (Bucket.toPublish w b), w') ∧
    w'.Sound ∧ (∀ b', b' ≠ b → w'.buckets b' = w.buckets b') ∧ w'.txs = w.txs := by
  unfold Bucket.publishRoot Bucket.toPublish bucketOf
  rw [Prog.read_bind]
  rcases (w.buckets b).rootNode with _ | r
  · exact ⟨w, rfl, hw, fun _ _ => rfl, rfl⟩
  · obtain ⟨w', e, h⟩ := detachPublishedNodes_eq (b := b) hw
    exact ⟨w', Prog.bind_ok e, h⟩

/-- The map that the publishing loop builds from `m`. -/
def Tx.published (w : World) (t : TxId) (names : List Name)
    (m : AList fun _ : Name => Option BucketState) (name : Name) : Option (Option BucketState) :=
  match (w.txs t).bctx.lookup name with
  | some b =>
    if name ∈ names ∧ name ∉ (w.txs t).deleted then some (Bucket.toPublish w b) else m.lookup name
  | none => m.lookup name

/-- The third phase of a commit: the loop reads every handle before it detaches its nodes. -/
lemma TxRun.publishAll (names : List Name) {m : AList fun _ : Name => Option BucketState}
    (h : TxRun dead F w1 t) (hnd : names.Nodup) (hs : w.Sound) (htxs : w.txs = w1.txs)
    (hpub : ∀ name ∈ names, ∀ b, (w1.txs t).bctx.lookup name = some b →
      Bucket.toPublish w b = Bucket.toPublish w1 b) :
    ∃ m' w', Tx.publishAll t names m w = (.ok m', w') ∧ w'.Sound ∧ w'.txs = w1.txs ∧
      ∀ name, m'.lookup name = Tx.published w1 t names m name := by
  induction names generalizing w m with
  | nil =>
    refine ⟨m, w, rfl, hs, htxs, fun name => ?_⟩
    unfold Tx.published
    split <;> simp
  | cons name names ih =>
    have hnd := List.nodup_cons.1 hnd
    have hskip : ∀ {P : Name → Prop}, (∀ x ∈ name :: names, P x) → ∀ x ∈ names, P x :=
      fun h x hx => h x (.tail _ hx)
    unfold Tx.publishAll Tx.get
    rw [Prog.read_bind, htxs]
    rcases hb : (w1.txs t).bctx.lookup name with _ | b
    · obtain ⟨m', w', e, h1, h2, h3⟩ := ih (m := m) hnd.2 hs htxs (hskip hpub)
      refine ⟨m', w', e, h1, h2, fun x => (h3 x).trans ?_⟩
      unfold Tx.published
      rcases hx : (w1.txs t).bctx.lookup x with _ | bx
      · rfl
      · have hne : x ≠ name := fun e => by rw [e, hb] at hx; cases hx
        simp [hne]
    · dsimp only
      by_cases hdel : name ∈ (w1.txs t).deleted
      · rw [if_pos hdel]
        obtain ⟨m', w', e, h1, h2, h3⟩ := ih (m := m) hnd.2 hs htxs (hskip hpub)
        refine ⟨m', w', e, h1, h2, fun x => (h3 x).trans ?_⟩
        unfold Tx.published
        rcases hx : (w1.txs t).bctx.lookup x with _ | bx
        · rfl
        · by_cases hne : x = name
          · simp [hne, hdel]
          · simp [hne]
      · rw [if_neg hdel]
        obtain ⟨w2, e2, s2, o2, t2⟩ := publishRoot_eq (b := b) hs
        rw [Prog.bind_ok e2]
        obtain ⟨m', w', e, h1, h2, h3⟩ := ih (m := m.insert name (Bucket.toPublish w b)) hnd.2 s2
          (t2.trans htxs) (by
            intro x hx bx hbx
            have hne : x ≠ name := fun e => hnd.1 (e ▸ hx)
            have hbne := h.handle_ne hb hbx hne
            rw [← hpub x (.tail _ hx) bx hbx]
            unfold Bucket.toPublish Bucket.baseState
            rw [o2 bx hbne, t2])
        refine ⟨m', w', e, h1, h2, fun x => (h3 x).trans ?_⟩
        unfold Tx.published
        by_cases hne : x = name
        · subst hne
          rw [hb]
          dsimp only
          rw [if_neg fun hc => hnd.1 hc.1, if_pos ⟨by simp, hdel⟩, AList.lookup_insert,
            hpub x (by simp) b hb]
        · rw [AList.lookup_insert_ne hne]
          rcases hx : (w1.txs t).bctx.lookup x with _ | bx
          · rfl
          · simp [hne]

end

end Vmbolt
