import PointsTo.Proofs.Partition.Run

/-!
# What a merge hands on

When two classes are merged, the survivor takes over the annotations of both representatives. It
does not look at the annotations of other members. Whatever was recorded under a member while it
represented its class has come to the representative by then, with the merge that absorbed the
member. What was recorded under a member later is with the member still, and no merge hands it on.

## Main definitions

* `RecordedLate`: what was recorded under a node that did not represent its class
* `LeftWith`: what the annotations of merged nodes hold
* `Inherits`: what the survivor of a merge takes over

## Main results

* `leftWith_run`: after a run a merged node holds itself and what was recorded late
* `inherits_merge`: what the survivor of a merge takes over, after any run
* `late_record_not_inherited`: what was recorded late is lost to the survivor
-/

namespace PointsTo.Partition

variable {p q : Partition} {m : Merge} {ops : List Operation} {a b c x lost survivor : NodeId}
  {L : NodeId → NodeId → Prop}

/-! ## Annotations of merged nodes -/

/-- Since the last clearing `x` was recorded under `b` when `b` did not represent its class. -/
def RecordedLate : List Operation → NodeId → NodeId → Prop := RecordedWhen fun p b => p.find b ≠ b

/-- **The annotation of every node that was merged away** is the node, together with what `L` says
was recorded under it; `L` is about such nodes only. -/
structure LeftWith (L : NodeId → NodeId → Prop) (p : Partition) : Prop where
  merged : ∀ {c x}, L c x → p.find c ≠ c
  mem_subsumed : ∀ {c x}, p.find c ≠ c → (x ∈ p.subsumed c ↔ x = c ∨ L c x)

theorem leftWith_empty (hL : ∀ c x, ¬ L c x) : LeftWith L ∅ where
  merged h := absurd h (hL _ _)
  mem_subsumed hc := absurd (find_empty _) hc

/-- The absorbed node gave all it held to the survivor, and nothing was recorded late. -/
theorem LeftWith.absorb (h : p.LeftWith L) (hp : p.Valid) (hlost : p.find lost = lost)
    (hsurvivor : p.find survivor = survivor) : (p.absorb lost survivor).LeftWith L := by
  have hfind := find_absorb hp hlost survivor
  refine ⟨fun {c x} hL => ?_, fun {c x} hc => ?_⟩
  · have hmerged := h.merged hL
    rw [hfind]
    split
    · rintro rfl
      exact hmerged hsurvivor
    · exact hmerged
  · have hcs : c ≠ survivor := by
      rintro rfl
      rw [hfind, hsurvivor, ite_self] at hc
      exact hc rfl
    rw [mem_subsumed_absorb, if_neg hcs]
    by_cases hcl : c = lost
    · have hnone : ¬ L c x := fun hL => h.merged hL (hcl ▸ hlost)
      rw [if_pos hcl, or_iff_left hnone]
    · have hmerged : p.find c ≠ c := by
        intro hrep
        rw [hfind, hrep, if_neg hcl] at hc
        exact hc rfl
      rw [if_neg hcl, h.mem_subsumed hmerged]

theorem LeftWith.subsume (h : p.LeftWith L) (b x : NodeId) :
    (p.subsume b x).LeftWith fun c y => L c y ∨ (c = b ∧ y = x ∧ p.find c ≠ c) := by
  refine ⟨fun {c y} hL => ?_, fun {c y} hc => ?_⟩
  · rw [find_subsume]
    exact hL.elim h.merged fun hnew => hnew.2.2
  · rw [find_subsume] at hc
    rw [mem_subsumed_subsume, h.mem_subsumed hc]
    grind

/-- **After a run a merged node holds itself** and what was recorded under it once it had been
merged. -/
theorem leftWith_run (ops : List Operation) : (run ops).LeftWith (RecordedLate ops) :=
  recordedWhen_run leftWith_empty .absorb (fun b x h => h.subsume b x) ops

/-! ## What the survivor takes over -/

/-- **What the survivor takes over** when the classes of `a` and `b` are merged after a run. -/
structure Inherits (ops : List Operation) (a b : NodeId) (result : Partition × Merge) : Prop where
  /-- The survivor subsumes the members of both classes and what was recorded under them while they
  represented their classes. -/
  mem_subsumed : ∀ x, x ∈ result.1.subsumed result.2.survivor ↔
    ∃ c, ((run ops).find c = (run ops).find a ∨ (run ops).find c = (run ops).find b) ∧
      (x = c ∨ Recorded ops c x)
  /-- Of what a member subsumed before, only what was recorded late may be missing. -/
  inherited : ∀ {c x}, (run ops).find c = (run ops).find a ∨ (run ops).find c = (run ops).find b →
    x ∈ (run ops).subsumed c → x ∈ result.1.subsumed result.2.survivor ∨ RecordedLate ops c x

/-- The merge keeps the annotations right, and what a representative holds belongs to members of its
class. -/
theorem Merging.inherits (h : Merging (run ops) a b q m) : Inherits ops a b (q, m) := by
  have hvalid := (flat_run ops).toValid
  have hannotated := annotatedBy_run ops
  obtain ⟨⟨hsurvivor, -⟩, -, -⟩ := h.reports hvalid
  have hmem : ∀ x, x ∈ q.subsumed m.survivor ↔
      ∃ c, ((run ops).find c = (run ops).find a ∨ (run ops).find c = (run ops).find b) ∧
        (x = c ∨ Recorded ops c x) := by
    intro x
    have hclass : ∀ c, q.find c = m.survivor ↔
        (run ops).find c = (run ops).find a ∨ (run ops).find c = (run ops).find b := by
      intro c
      rw [← hsurvivor, h.find_eq_iff hvalid]
      grind
    have hrep : q.find m.survivor = m.survivor := by
      rw [← hsurvivor]
      exact ((flat_run ops).of_merging h).find_find a
    simp only [(hannotated.of_merging hvalid h).mem_subsumed hrep, hclass]
  refine ⟨hmem, fun {c x} hc hx => ?_⟩
  by_cases hrep : (run ops).find c = c
  · obtain ⟨d, hd, hxd⟩ := (hannotated.mem_subsumed hrep).mp hx
    refine .inl ((hmem x).mpr ⟨d, ?_, hxd⟩)
    rwa [hd, ← hrep]
  · rcases ((leftWith_run ops).mem_subsumed hrep).mp hx with rfl | hlate
    · exact .inl ((hmem x).mpr ⟨x, hc, .inl rfl⟩)
    · exact .inr hlate

/-- **A merge hands on what was recorded under representatives.** After any run of operations, and
whichever way two classes are merged, the survivor subsumes exactly the members of both classes and
what was recorded under a member while it represented its class; all that a member subsumed before
is among this, except what was recorded under the member after it had been merged away. -/
theorem inherits_merge (ops : List Operation) (a b : NodeId) :
    Inherits ops a b ((run ops).mergeInto a b) ∧
      ∀ policy, Inherits ops a b ((run ops).union a b policy) :=
  ⟨(merging_mergeInto (run ops) a b).inherits,
    fun policy => (merging_union (run ops) a b policy).inherits⟩

/-- **What was recorded late is lost to the survivor**: 9 is recorded under 1 when 2 represents its
class already, and merging that class into the class of 3 leaves 9 behind. -/
theorem late_record_not_inherited :
    (run [.mergeInto 1 2, .subsume 1 9]).find 1 = 2 ∧
      (run [.mergeInto 1 2, .subsume 1 9]).subsumed 1 = .ofList [1, 9] ∧
      ((run [.mergeInto 1 2, .subsume 1 9]).mergeInto 2 3).2 = ⟨3, some 2⟩ ∧
      ((run [.mergeInto 1 2, .subsume 1 9]).mergeInto 2 3).1.subsumed 3 = .ofList [1, 2, 3] := by
  decide +kernel

end PointsTo.Partition
