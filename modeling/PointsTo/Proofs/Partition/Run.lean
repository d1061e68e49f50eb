import Mathlib.Data.List.Induction
import Mathlib.Logic.Relation
import PointsTo.Proofs.Partition

/-!
# Runs of a partition

A partition that was made by operations from the empty one is the equivalence generated by the
pairs merged since it was last cleared. The flat table says so without a chain to follow: a node is
listed exactly when it was merged away, each merge lists one node that was not listed before, and
the annotation of a representative holds its class and what was recorded by hand under a member that
represented it.

## Main definitions

* `Operation`, `run`: what can be done to a partition, and the partition after a list of operations
* `sinceClear`, `Paired`: the operations after the last clearing, and the pairs they merged
* `Merging`: what one merge does, whichever class survives
* `Flat`: the table lists each merged node once, and its size is the number of merges
* `RecordedWhen`, `Recorded`: what was recorded by hand, and under which circumstances
* `AnnotatedBy`, `Annotated`: what the annotation of a representative holds

## Main results

* `Flat.absorb`, `flat_run`: merging keeps the table flat, and so does every run
* `find_eq_iff_run`: after a run two nodes share a class when the merged pairs connect them
* `recordedWhen_run`, `annotatedBy_run`: what a run leaves in the annotations
* `run_generates`: what a run leaves, read through every query
-/

namespace PointsTo.Partition

variable {p : Partition} {lost survivor : NodeId}

/-! ## Operations -/

/-- What can be done to a partition. -/
inductive Operation where
  | mergeInto (n m : NodeId)
  | union (a b : NodeId) (policy : SurvivorPolicy)
  | subsumed (n : NodeId)
  | subsume (n sub : NodeId)
  | clear
deriving DecidableEq, Repr

namespace Operation

/-- The partition after the operation; reading an annotation leaves it as it is. -/
def apply (p : Partition) : Operation → Partition
  | mergeInto n m => (p.mergeInto n m).1
  | union a b policy => (p.union a b policy).1
  | subsumed _ => p
  | subsume n sub => p.subsume n sub
  | clear => ∅

/-- The pair that the operation merges. -/
def pair? : Operation → Option (NodeId × NodeId)
  | mergeInto a b | union a b _ => some (a, b)
  | subsumed _ | subsume _ _ | clear => none

/-- Whether the operation records an annotation. -/
def annotates : Operation → Bool
  | subsume _ _ => true
  | mergeInto _ _ | union _ _ _ | subsumed _ | clear => false

end Operation

/-- The partition after the operations, the first one applied to the empty partition. -/
def run (ops : List Operation) : Partition := ops.foldl Operation.apply ∅

/-- The operations after the last clearing, the latest first. -/
def sinceClear (ops : List Operation) : List Operation := ops.reverse.takeWhile (· != .clear)

/-- Since the last clearing the two nodes were merged. -/
def Paired (ops : List Operation) (a b : NodeId) : Prop :=
  ∃ op ∈ sinceClear ops, op.pair? = some (a, b)

@[simp] theorem run_append_singleton (ops : List Operation) (op : Operation) :
    run (ops ++ [op]) = op.apply (run ops) := by
  simp [run]

@[simp] theorem sinceClear_append_clear (ops : List Operation) :
    sinceClear (ops ++ [.clear]) = [] := by
  simp [sinceClear]

theorem sinceClear_append {op : Operation} (ops : List Operation) (hop : op ≠ .clear) :
    sinceClear (ops ++ [op]) = op :: sinceClear ops := by
  simp [sinceClear, hop]

/-! ## One merge

Both ways to merge two classes do the same up to the choice of the survivor, so everything about a
merge is said once, of any choice. -/

/-- `q` and `m` are the partition and the report after the classes of `a` and `b` were merged. -/
def Merging (p : Partition) (a b : NodeId) (q : Partition) (m : Merge) : Prop :=
  (p.find a = p.find b ∧ q = p ∧ m = ⟨p.find b, none⟩) ∨
    ∃ lost survivor, lost ≠ survivor ∧
      (lost = p.find a ∧ survivor = p.find b ∨ lost = p.find b ∧ survivor = p.find a) ∧
      q = p.absorb lost survivor ∧ m = ⟨survivor, some lost⟩

theorem merging_mergeInto (p : Partition) (a b : NodeId) :
    Merging p a b (p.mergeInto a b).1 (p.mergeInto a b).2 := by
  by_cases h : p.find a = p.find b
  · exact .inl ⟨h, by simp [mergeInto, h]⟩
  · exact .inr ⟨p.find a, p.find b, h, .inl ⟨rfl, rfl⟩, by simp [mergeInto, h]⟩

theorem merging_union (p : Partition) (a b : NodeId) (policy : SurvivorPolicy) :
    Merging p a b (p.union a b policy).1 (p.union a b policy).2 := by
  by_cases h : p.find a = p.find b
  · rw [union_of_find_eq h]
    exact .inl ⟨h, rfl, by rw [h]⟩
  · obtain ⟨lost, survivor, hpair, heq⟩ := union_of_ne h policy
    refine .inr ⟨lost, survivor, ?_, hpair, by rw [heq], by rw [heq]⟩
    rcases hpair with ⟨rfl, rfl⟩ | ⟨rfl, rfl⟩
    · exact h
    · exact Ne.symm h

/-- What holds of a partition, and of it with one class absorbed by another, holds after a merge. -/
theorem Merging.keeps {Q : Partition → Prop} {a b : NodeId} {q : Partition} {m : Merge}
    (h : Merging p a b q m) (hp : p.Valid)
    (habsorb : ∀ {lost survivor}, p.find lost = lost → p.find survivor = survivor →
      lost ≠ survivor → Q (p.absorb lost survivor)) (hQ : Q p) : Q q := by
  rcases h with ⟨-, rfl, -⟩ | ⟨lost, survivor, hne, hpair, rfl, -⟩
  · exact hQ
  · rcases hpair with ⟨rfl, rfl⟩ | ⟨rfl, rfl⟩
    · exact habsorb (hp.find_find a) (hp.find_find b) hne
    · exact habsorb (hp.find_find b) (hp.find_find a) hne

/-- The report of a merge tells the two former representatives apart. -/
structure Merge.Reports (p q : Partition) (a b : NodeId) (m : Merge) : Prop where
  /-- Both nodes are represented by the survivor afterwards. -/
  survivor : q.find a = m.survivor ∧ q.find b = m.survivor
  /-- The survivor represented one of the two classes. -/
  kept : m.survivor = p.find a ∨ m.survivor = p.find b
  /-- The other representative is absorbed, when there is another one. -/
  absorbed : m.absorbed = if p.find a = p.find b then none
    else if m.survivor = p.find b then some (p.find a) else some (p.find b)

theorem Merging.reports {a b : NodeId} {q : Partition} {m : Merge} (hp : p.Valid)
    (h : Merging p a b q m) : Merge.Reports p q a b m := by
  rcases h with ⟨heq, rfl, rfl⟩ | ⟨lost, survivor, hne, hpair, rfl, rfl⟩
  · exact ⟨⟨heq, rfl⟩, .inr rfl, by rw [if_pos heq]⟩
  · rcases hpair with ⟨rfl, rfl⟩ | ⟨rfl, rfl⟩
    · have hfind := find_absorb hp (hp.find_find a) (p.find b)
      refine ⟨⟨by simp [hfind], by simp [hfind]⟩, .inr rfl, ?_⟩
      rw [if_neg hne, if_pos rfl]
    · have hfind := find_absorb hp (hp.find_find b) (p.find a)
      refine ⟨⟨by simp [hfind], by simp [hfind]⟩, .inl rfl, ?_⟩
      rw [if_neg hne.symm, if_neg hne.symm]

/-! ## The flat table -/

/-- The table of representatives is flat: it lists the merged nodes and nothing else, every class is
listed without repetition, and each merge listed one node more. -/
structure Flat (p : Partition) : Prop extends p.Valid where
  /-- A listed node does not represent itself. -/
  listed : ∀ {n}, n ∈ p.representatives → p.find n ≠ n
  /-- The list of a class names each member once. -/
  nodup : ∀ {r}, p.find r = r → (p.classOf r).Nodup
  /-- There are as many listed nodes as there were merges. -/
  size : p.representatives.size = p.mergeCount

theorem flat_empty : Flat ∅ where
  toValid := valid_empty
  listed h := absurd h Std.ExtTreeMap.not_mem_empty
  nodup _ := by simp
  size := Std.ExtTreeMap.size_empty

theorem Flat.subsume (h : p.Flat) (n sub : NodeId) : (p.subsume n sub).Flat :=
  ⟨h.toValid.subsume n sub, h.listed, h.nodup, h.size⟩

/-- A node is listed exactly when it does not represent itself. -/
theorem Flat.mem_representatives (h : p.Flat) (n : NodeId) :
    n ∈ p.representatives ↔ p.find n ≠ n := by
  refine ⟨h.listed, ?_⟩
  contrapose!
  intro hn
  exact Std.ExtTreeMap.getD_eq_fallback hn

theorem Flat.isRepresentative_iff (h : p.Flat) (n : NodeId) :
    p.isRepresentative n = true ↔ p.find n = n := by
  have hmem := h.mem_representatives n
  rw [← Std.ExtTreeMap.contains_iff_mem] at hmem
  rw [isRepresentative, Bool.not_eq_true']
  grind

theorem mem_foldl_insert (moved : List NodeId) (table : Std.ExtTreeMap NodeId NodeId)
    (survivor n : NodeId) :
    n ∈ moved.foldl (fun table n => table.insert n survivor) table ↔ n ∈ moved ∨ n ∈ table := by
  induction moved generalizing table with
  | nil => simp
  | cons m moved ih =>
    rw [List.foldl_cons, ih, Std.ExtTreeMap.mem_insert]
    simp only [Std.LawfulEqCmp.compare_eq_iff_eq, List.mem_cons]
    grind

/-- Listing nodes under one value adds the entries of those that were not listed. -/
theorem size_foldl_insert {moved : List NodeId} (hmoved : moved.Nodup)
    (table : Std.ExtTreeMap NodeId NodeId) (survivor : NodeId) :
    (moved.foldl (fun table n => table.insert n survivor) table).size =
      table.size + moved.countP (fun n => !table.contains n) := by
  induction moved generalizing table with
  | nil => simp
  | cons m moved ih =>
    obtain ⟨hm, hrest⟩ := List.nodup_cons.mp hmoved
    have hcount : moved.countP (fun n => !(table.insert m survivor).contains n) =
        moved.countP (fun n => !table.contains n) := by
      refine List.countP_congr fun n hn => ?_
      have hne : m ≠ n := fun h => hm (h ▸ hn)
      simp [Std.ExtTreeMap.contains_insert, hne]
    rw [List.foldl_cons, ih hrest, hcount, Std.ExtTreeMap.size_insert, List.countP_cons]
    by_cases hc : table.contains m = true
    · simp [hc]
    · simp [hc]
      omega

/-- Of the members of a class only the representative is not listed. -/
theorem Flat.countP_classOf (h : p.Flat) (hlost : p.find lost = lost) :
    (p.classOf lost).countP (fun n => !p.representatives.contains n) = 1 := by
  rw [← List.count_eq_one_of_mem (h.nodup hlost) ((h.mem_classOf hlost).mpr hlost)]
  refine List.countP_congr fun n hn => ?_
  have hn : p.find n = lost := (h.mem_classOf hlost).mp hn
  have hmem := h.mem_representatives n
  rw [hn] at hmem
  rw [Bool.not_eq_true', beq_iff_eq, ← Bool.not_eq_true, Std.ExtTreeMap.contains_iff_mem, hmem]
  grind

/-- **Merging keeps the table flat**: it lists the absorbed representative and moves the rest of its
class. -/
theorem Flat.absorb (h : p.Flat) (hlost : p.find lost = lost)
    (hsurvivor : p.find survivor = survivor) (hne : lost ≠ survivor) :
    (p.absorb lost survivor).Flat := by
  have hfind := find_absorb h.toValid hlost survivor
  refine ⟨h.toValid.absorb hlost hsurvivor hne, ?_, ?_, ?_⟩
  · intro n hn
    rcases (mem_foldl_insert _ _ _ _).mp hn with hmoved | hold
    · rw [hfind, if_pos ((h.mem_classOf hlost).mp hmoved)]
      rintro rfl
      exact hne (((h.mem_classOf hlost).mp hmoved).symm.trans hsurvivor)
    · rw [hfind]
      split
      · rintro rfl
        exact h.listed hold hsurvivor
      · exact h.listed hold
  · intro r hr
    rw [classOf_absorb]
    split
    · refine List.nodup_append.mpr ⟨h.nodup hsurvivor, h.nodup hlost, ?_⟩
      rintro n hns m hml rfl
      exact hne (((h.mem_classOf hlost).mp hml).symm.trans ((h.mem_classOf hsurvivor).mp hns))
    · split
      · exact List.nodup_singleton r
      · rename_i hrs hrl
        refine h.nodup ?_
        rw [hfind] at hr
        split at hr
        · exact absurd hr.symm hrs
        · exact hr
  · change (List.foldl _ p.representatives (p.classOf lost)).size = p.mergeCount + 1
    rw [size_foldl_insert (h.nodup hlost), h.countP_classOf hlost, h.size]

theorem Flat.of_merging {a b : NodeId} {q : Partition} {m : Merge} (h : p.Flat)
    (hm : Merging p a b q m) : q.Flat :=
  hm.keeps h.toValid h.absorb h

theorem Flat.apply (h : p.Flat) (op : Operation) : (op.apply p).Flat := by
  cases op with
  | mergeInto a b => exact h.of_merging (merging_mergeInto p a b)
  | union a b policy => exact h.of_merging (merging_union p a b policy)
  | subsumed n => exact h
  | subsume n sub => exact h.subsume n sub
  | clear => exact flat_empty

/-- **Every run leaves a flat table.** -/
theorem flat_run (ops : List Operation) : (run ops).Flat := by
  induction ops using List.reverseRecOn with
  | nil => exact flat_empty
  | append_singleton ops op ih =>
    rw [run_append_singleton]
    exact ih.apply op

/-! ## The classes of a flat table -/

theorem Flat.mem_classMembers (h : p.Flat) (x y : NodeId) :
    y ∈ p.classMembers x ↔ p.find y = p.find x := by
  rw [classMembers, IdSet.mem_ofList, h.mem_classOf (h.find_find x)]

/-- The members of a class in ascending order are the list of the class, sorted. -/
theorem Flat.perm_classMembers (h : p.Flat) (x : NodeId) :
    (p.classMembers x).elements.Perm (p.classOf (p.find x)) := by
  have hnodup : (p.classMembers x).elements.Nodup := (IdSet.ascending_ofList _).imp Nat.ne_of_lt
  refine (List.perm_ext_iff_of_nodup hnodup (h.nodup (h.find_find x))).mpr fun y => ?_
  exact IdSet.mem_ofList _ y

/-! ## The generated equivalence -/

/-- What a merge does to the classes: two nodes share one afterwards when they shared one before, or
each was with one of the two nodes merged. -/
theorem Merging.find_eq_iff {a b : NodeId} {q : Partition} {m : Merge} (hp : p.Valid)
    (h : Merging p a b q m) (x y : NodeId) :
    q.find x = q.find y ↔ p.find x = p.find y ∨
      (p.find x = p.find a ∧ p.find y = p.find b) ∨
      (p.find x = p.find b ∧ p.find y = p.find a) := by
  rcases h with ⟨heq, rfl, -⟩ | ⟨lost, survivor, hne, hpair, rfl, -⟩
  · grind
  · have hlost : p.find lost = lost := by
      rcases hpair with ⟨rfl, -⟩ | ⟨rfl, -⟩
      · exact hp.find_find a
      · exact hp.find_find b
    rw [find_absorb hp hlost, find_absorb hp hlost]
    grind

/-- Having one representative is an equivalence: if it holds of the generators, it holds of all that
they connect. -/
theorem find_eq_of_eqvGen {S : NodeId → NodeId → Prop} (hS : ∀ x y, S x y → p.find x = p.find y)
    {x y : NodeId} (h : Relation.EqvGen S x y) : p.find x = p.find y := by
  induction h with
  | rel x y hxy => exact hS x y hxy
  | refl x => rfl
  | symm x y _ ih => exact ih.symm
  | trans x y z _ _ ihxy ihyz => exact ihxy.trans ihyz

/-- One more pair merged adds that pair to the generators. -/
theorem Merging.eqvGen {a b : NodeId} {q : Partition} {m : Merge} {R S : NodeId → NodeId → Prop}
    (hp : p.Valid) (h : Merging p a b q m)
    (hR : ∀ x y, p.find x = p.find y ↔ Relation.EqvGen R x y)
    (hS : ∀ x y, S x y ↔ (x = a ∧ y = b) ∨ R x y) (x y : NodeId) :
    q.find x = q.find y ↔ Relation.EqvGen S x y := by
  have hmono : ∀ {x y}, p.find x = p.find y → Relation.EqvGen S x y := fun heq =>
    ((hR _ _).mp heq).mono fun _ _ hr => (hS _ _).mpr (.inr hr)
  have hab : Relation.EqvGen S a b := .rel a b ((hS a b).mpr (.inl ⟨rfl, rfl⟩))
  constructor
  · intro heq
    rcases (h.find_eq_iff hp x y).mp heq with heq | ⟨hx, hy⟩ | ⟨hx, hy⟩
    · exact hmono heq
    · exact ((hmono hx).trans _ _ _ hab).trans _ _ _ (hmono hy.symm)
    · exact ((hmono hx).trans _ _ _ (hab.symm _ _)).trans _ _ _ (hmono hy.symm)
  · refine find_eq_of_eqvGen fun x y hxy => (h.find_eq_iff hp x y).mpr ?_
    rcases (hS x y).mp hxy with ⟨rfl, rfl⟩ | hr
    · exact .inr (.inl ⟨rfl, rfl⟩)
    · exact .inl ((hR x y).mpr (.rel x y hr))

/-- Without a pair every node is alone. -/
theorem eqvGen_empty {S : NodeId → NodeId → Prop} (hS : ∀ x y, ¬ S x y) (x y : NodeId) :
    (∅ : Partition).find x = (∅ : Partition).find y ↔ Relation.EqvGen S x y := by
  constructor
  · intro heq
    rw [find_empty, find_empty] at heq
    exact heq ▸ .refl x
  · exact find_eq_of_eqvGen fun x y h => (hS x y h).elim

theorem paired_append {op : Operation} (ops : List Operation) (hop : op ≠ .clear) (x y : NodeId) :
    Paired (ops ++ [op]) x y ↔ op.pair? = some (x, y) ∨ Paired ops x y := by
  simp [Paired, sinceClear_append ops hop]

/-- Annotations pair no nodes. -/
theorem paired_append_of_none {op : Operation} (ops : List Operation) (hop : op ≠ .clear)
    (hpair : op.pair? = none) : Paired (ops ++ [op]) = Paired ops := by
  funext x y
  simp [paired_append ops hop, hpair]

/-- **After a run two nodes share a class** exactly when the pairs merged since the last clearing
connect them. -/
theorem find_eq_iff_run (ops : List Operation) (x y : NodeId) :
    (run ops).find x = (run ops).find y ↔ Relation.EqvGen (Paired ops) x y := by
  induction ops using List.reverseRecOn generalizing x y with
  | nil => exact eqvGen_empty (fun x y h => by simp [Paired, sinceClear] at h) x y
  | append_singleton ops op ih =>
    have hvalid := (flat_run ops).toValid
    rw [run_append_singleton]
    cases op with
    | mergeInto a b =>
      refine (merging_mergeInto (run ops) a b).eqvGen hvalid ih (fun x y => ?_) x y
      simp [paired_append, Operation.pair?, eq_comm]
    | union a b policy =>
      refine (merging_union (run ops) a b policy).eqvGen hvalid ih (fun x y => ?_) x y
      simp [paired_append, Operation.pair?, eq_comm]
    | subsumed n =>
      rw [paired_append_of_none ops (by simp) rfl]
      exact ih x y
    | subsume n sub =>
      rw [paired_append_of_none ops (by simp) rfl]
      exact ih x y
    | clear => exact eqvGen_empty (fun x y h => by simp [Paired] at h) x y

/-! ## Annotations

A merge hands the annotation of the absorbed representative on together with that representative.
So the annotation of a representative holds its class, and what was recorded under a member while
that member represented its class. What is recorded under a node after it was merged away stays
with the node. -/

/-- Since the last clearing `x` was recorded under `b`, when `P` held of the partition and `b`. -/
def RecordedWhen (P : Partition → NodeId → Prop) (ops : List Operation) (b x : NodeId) : Prop :=
  ∃ before after, ops = before ++ .subsume b x :: after ∧ .clear ∉ after ∧ P (run before) b

/-- Since the last clearing `x` was recorded under `b` while `b` represented its class. -/
def Recorded : List Operation → NodeId → NodeId → Prop := RecordedWhen fun p b => p.find b = b

/-- An entry of a list with one more at its end is that one, or an entry of the list. -/
theorem append_singleton_eq_append_cons {α : Type*} {xs before after : List α} {x y : α} :
    xs ++ [x] = before ++ y :: after ↔
      (xs = before ∧ x = y ∧ after = []) ∨
        ∃ init, after = init ++ [x] ∧ xs = before ++ y :: init := by
  constructor
  · intro h
    cases after using List.reverseRecOn with
    | nil =>
      obtain ⟨rfl, hlast⟩ := List.append_inj' h rfl
      exact .inl ⟨rfl, List.singleton_inj.mp hlast, rfl⟩
    | append_singleton init last =>
      rw [← List.cons_append, ← List.append_assoc] at h
      obtain ⟨rfl, hlast⟩ := List.append_inj' h rfl
      exact .inr ⟨init, by rw [List.singleton_inj.mp hlast], rfl⟩
  · rintro (⟨rfl, rfl, rfl⟩ | ⟨init, rfl, rfl⟩)
    · rfl
    · simp

section Records

variable {P : Partition → NodeId → Prop} {ops : List Operation} {op : Operation} {b x : NodeId}

theorem recordedWhen_append (ops : List Operation) (hop : op ≠ .clear) (b x : NodeId) :
    RecordedWhen P (ops ++ [op]) b x ↔
      RecordedWhen P ops b x ∨ (op = .subsume b x ∧ P (run ops) b) := by
  simp only [RecordedWhen, append_singleton_eq_append_cons]
  constructor
  · rintro ⟨before, after, ⟨rfl, rfl, rfl⟩ | ⟨init, rfl, rfl⟩, hclear, hP⟩
    · exact .inr ⟨rfl, hP⟩
    · exact .inl ⟨before, init, rfl, fun hmem => hclear (List.mem_append_left _ hmem), hP⟩
  · rintro (⟨before, init, rfl, hclear, hP⟩ | ⟨rfl, hP⟩)
    · refine ⟨before, init ++ [op], .inr ⟨init, rfl, rfl⟩, ?_, hP⟩
      simp [hclear, hop.symm]
    · exact ⟨ops, [], .inl ⟨rfl, rfl, rfl⟩, List.not_mem_nil, hP⟩

/-- Only a record adds one. -/
theorem recordedWhen_append_of_not_annotates (ops : List Operation) (hop : op ≠ .clear)
    (hannotates : op.annotates = false) : RecordedWhen P (ops ++ [op]) = RecordedWhen P ops := by
  funext b x
  refine propext ((recordedWhen_append ops hop b x).trans (or_iff_left ?_))
  rintro ⟨rfl, -⟩
  cases hannotates

/-- A clearing takes all records away. -/
theorem not_recordedWhen_append_clear (ops : List Operation) (b x : NodeId) :
    ¬ RecordedWhen P (ops ++ [.clear]) b x := by
  rintro ⟨before, after, hops, hclear, -⟩
  rcases append_singleton_eq_append_cons.mp hops with ⟨-, hlast, -⟩ | ⟨init, rfl, -⟩
  · cases hlast
  · exact hclear (List.mem_append_right init (List.mem_singleton_self _))

/-- Read from the end, the operations after the record come first, and none of them clears. -/
theorem RecordedWhen.mem_sinceClear (h : RecordedWhen P ops b x) :
    .subsume b x ∈ sinceClear ops := by
  obtain ⟨before, after, rfl, hclear, -⟩ := h
  have hafter : ∀ op ∈ after.reverse, (op != .clear) = true := by
    intro op hop
    rw [bne_iff_ne]
    rintro rfl
    exact hclear (List.mem_reverse.mp hop)
  rw [sinceClear, List.reverse_append, List.reverse_cons, List.append_assoc,
    List.takeWhile_append_of_pos hafter]
  simp

/-- **What merges keep, and what each record extends by that record, holds after a run** of all that
was recorded in it. -/
theorem recordedWhen_run {Q : (NodeId → NodeId → Prop) → Partition → Prop}
    (hempty : ∀ {R : NodeId → NodeId → Prop}, (∀ c x, ¬ R c x) → Q R ∅)
    (habsorb : ∀ {R p lost survivor}, Q R p → p.Valid → p.find lost = lost →
      p.find survivor = survivor → Q R (p.absorb lost survivor))
    (hrecord : ∀ {R p} (b x : NodeId), Q R p →
      Q (fun c y => R c y ∨ (c = b ∧ y = x ∧ P p c)) (p.subsume b x))
    (ops : List Operation) : Q (RecordedWhen P ops) (run ops) := by
  induction ops using List.reverseRecOn with
  | nil => exact hempty fun c x h => by simp [RecordedWhen] at h
  | append_singleton ops op ih =>
    have hvalid := (flat_run ops).toValid
    rw [run_append_singleton]
    cases op with
    | mergeInto a b =>
      rw [recordedWhen_append_of_not_annotates ops (by simp) rfl]
      exact (merging_mergeInto _ a b).keeps hvalid (fun h₁ h₂ _ => habsorb ih hvalid h₁ h₂) ih
    | union a b policy =>
      rw [recordedWhen_append_of_not_annotates ops (by simp) rfl]
      exact (merging_union _ a b policy).keeps hvalid (fun h₁ h₂ _ => habsorb ih hvalid h₁ h₂) ih
    | subsumed n =>
      rw [recordedWhen_append_of_not_annotates ops (by simp) rfl]
      exact ih
    | subsume b x =>
      have hrecords : RecordedWhen P (ops ++ [.subsume b x]) = fun c y =>
          RecordedWhen P ops c y ∨ (c = b ∧ y = x ∧ P (run ops) c) := by
        funext c y
        simp [recordedWhen_append, and_assoc, eq_comm]
      rw [hrecords]
      exact hrecord b x ih
    | clear => exact hempty (not_recordedWhen_append_clear ops)

end Records

/-! ### What each operation does to an annotation -/

theorem annotations_absorb (lost survivor n : NodeId) :
    (p.absorb lost survivor).annotations.getD n ∅ =
      if n = survivor then (p.subsumed survivor).insert lost ∪ p.annotations.getD lost ∅
      else if n = lost then ∅ else p.annotations.getD n ∅ := by
  simp only [absorb, Std.ExtTreeMap.getD_insert, Std.ExtTreeMap.getD_erase,
    Std.LawfulEqCmp.compare_eq_iff_eq, eq_comm (b := n)]

/-- **The survivor of a merge subsumes what the two representatives did**; the absorbed one is left
with itself. -/
theorem mem_subsumed_absorb (lost survivor n x : NodeId) :
    x ∈ (p.absorb lost survivor).subsumed n ↔
      if n = survivor then x ∈ p.subsumed survivor ∨ x ∈ p.subsumed lost
      else if n = lost then x = n else x ∈ p.subsumed n := by
  rw [subsumed, annotations_absorb]
  by_cases hns : n = survivor
  · simp only [if_pos hns, subsumed, IdSet.mem_insert, IdSet.mem_union]
    grind
  · by_cases hnl : n = lost
    · simp only [if_neg hns, if_pos hnl, IdSet.mem_insert, IdSet.not_mem_empty, or_false]
    · rw [if_neg hns, if_neg hnl, if_neg hns, if_neg hnl, subsumed]

theorem annotations_subsume (p : Partition) (b x n : NodeId) :
    (p.subsume b x).annotations.getD n ∅ =
      if n = b then (p.subsumed b).insert x else p.annotations.getD n ∅ := by
  simp only [subsume, Std.ExtTreeMap.getD_insert, Std.LawfulEqCmp.compare_eq_iff_eq,
    eq_comm (b := n)]

theorem mem_subsumed_subsume (p : Partition) (b x n y : NodeId) :
    y ∈ (p.subsume b x).subsumed n ↔ y ∈ p.subsumed n ∨ (n = b ∧ y = x) := by
  rw [subsumed, annotations_subsume]
  by_cases hn : n = b
  · simp only [hn, if_true, subsumed, IdSet.mem_insert, true_and]
    grind
  · simp [hn, subsumed]

theorem mem_subsumed_empty (n x : NodeId) : x ∈ (∅ : Partition).subsumed n ↔ x = n := by
  have hnone : (∅ : Partition).annotations.getD n ∅ = ∅ := Std.ExtTreeMap.getD_empty
  simp [subsumed, hnone]

/-! ### Annotations of representatives -/

/-- **The annotation of every representative** is its class, together with what `R` says was
recorded under a member. -/
structure AnnotatedBy (R : NodeId → NodeId → Prop) (p : Partition) : Prop where
  ascending : ∀ n, (p.annotations.getD n ∅).Ascending
  mem_subsumed : ∀ {r x}, p.find r = r →
    (x ∈ p.subsumed r ↔ ∃ c, p.find c = r ∧ (x = c ∨ R c x))

variable {R : NodeId → NodeId → Prop}

theorem annotatedBy_empty (hR : ∀ c x, ¬ R c x) : AnnotatedBy R ∅ := by
  refine ⟨fun n => ?_, fun {r x} _ => ?_⟩
  · have hnone : (∅ : Partition).annotations.getD n ∅ = ∅ := Std.ExtTreeMap.getD_empty
    rw [hnone]
    exact IdSet.ascending_empty
  · rw [mem_subsumed_empty]
    simp [hR]

/-- The class of the survivor has the members of both classes; any other representative was one
before. -/
theorem AnnotatedBy.absorb (h : p.AnnotatedBy R) (hp : p.Valid) (hlost : p.find lost = lost)
    (hsurvivor : p.find survivor = survivor) : (p.absorb lost survivor).AnnotatedBy R := by
  have hfind := find_absorb hp hlost survivor
  refine ⟨fun n => ?_, fun {r x} hr => ?_⟩
  · rw [annotations_absorb]
    split
    · exact IdSet.ascending_union (IdSet.ascending_insert
        (IdSet.ascending_insert (h.ascending survivor) survivor) lost) (h.ascending lost)
    · split
      · exact IdSet.ascending_empty
      · exact h.ascending n
  · simp only [mem_subsumed_absorb, hfind]
    by_cases hrs : r = survivor
    · subst hrs
      rw [if_pos rfl, h.mem_subsumed hsurvivor, h.mem_subsumed hlost]
      grind
    · have hkept : p.find r = r ∧ p.find r ≠ lost := by
        rw [hfind] at hr
        split at hr
        · exact absurd hr.symm hrs
        · exact ⟨hr, ‹_›⟩
      obtain ⟨hrep, hrl⟩ := hkept
      rw [hrep] at hrl
      rw [if_neg hrs, if_neg hrl, h.mem_subsumed hrep]
      grind

theorem AnnotatedBy.of_merging {a b : NodeId} {q : Partition} {m : Merge} (h : p.AnnotatedBy R)
    (hp : p.Valid) (hm : Merging p a b q m) : q.AnnotatedBy R :=
  hm.keeps hp (fun hlost hsurvivor _ => h.absorb hp hlost hsurvivor) h

/-- What is recorded under a representative is one record more; what is recorded under any other
node is no matter of representatives. -/
theorem AnnotatedBy.subsume (h : p.AnnotatedBy R) (b x : NodeId) :
    (p.subsume b x).AnnotatedBy fun c y => R c y ∨ (c = b ∧ y = x ∧ p.find c = c) := by
  refine ⟨fun n => ?_, fun {r y} hr => ?_⟩
  · rw [annotations_subsume]
    split
    · exact IdSet.ascending_insert (IdSet.ascending_insert (h.ascending b) b) x
    · exact h.ascending n
  · rw [find_subsume] at hr
    simp only [mem_subsumed_subsume, h.mem_subsumed hr, find_subsume]
    grind

/-- **After a run a representative subsumes its class** and what was recorded under a member that
represented its class at that time. -/
theorem annotatedBy_run (ops : List Operation) : (run ops).AnnotatedBy (Recorded ops) :=
  recordedWhen_run annotatedBy_empty .absorb (fun b x h => h.subsume b x) ops

/-- The annotation of every representative is its class. -/
structure Annotated (p : Partition) : Prop where
  ascending : ∀ n, (p.annotations.getD n ∅).Ascending
  mem_subsumed : ∀ {r n}, p.find r = r → (n ∈ p.subsumed r ↔ p.find n = r)

theorem annotated_run (ops : List Operation)
    (hops : ∀ op ∈ sinceClear ops, op.annotates = false) : (run ops).Annotated := by
  have hnone : ∀ c x, ¬ Recorded ops c x := fun c x h => by
    have hannotates := hops _ h.mem_sinceClear
    simp [Operation.annotates] at hannotates
  have hannotated := annotatedBy_run ops
  refine ⟨hannotated.ascending, fun {r n} hr => ?_⟩
  rw [hannotated.mem_subsumed hr]
  simp [hnone]

theorem Annotated.subsumed_eq (h : p.Annotated) (hp : p.Flat) {r : NodeId} (hr : p.find r = r) :
    p.subsumed r = p.classMembers r := by
  refine IdSet.eq_of_mem_iff (IdSet.ascending_insert (h.ascending r) r)
    (IdSet.ascending_ofList _) fun n => ?_
  rw [h.mem_subsumed hr, hp.mem_classMembers, hr]

/-! ## What a run leaves -/

/-- **A run leaves the equivalence generated by the pairs merged since the last clearing**, and
every query reads it: representatives are found in one look-up, the members of a class are listed
once and in order, merges are counted by the nodes merged away, the report of a merge names both
representatives, and, unless an annotation was recorded, a representative subsumes its class. -/
theorem run_generates (ops : List Operation) :
    (∀ x y, (run ops).find x = (run ops).find y ↔ Relation.EqvGen (Paired ops) x y) ∧
    (∀ x, (run ops).find ((run ops).find x) = (run ops).find x) ∧
    (∀ x, (run ops).isRepresentative x = true ↔ (run ops).find x = x) ∧
    (∀ x, ((run ops).classMembers x).Ascending ∧
      (∀ y, y ∈ (run ops).classMembers x ↔ (run ops).find y = (run ops).find x) ∧
      ((run ops).classMembers x).elements.Perm ((run ops).classOf ((run ops).find x)) ∧
      (run ops).classSize x = ((run ops).classMembers x).size) ∧
    (run ops).mergeCount = (run ops).mergedNodeCount ∧
    (∀ a b, Merge.Reports (run ops) ((run ops).mergeInto a b).1 a b ((run ops).mergeInto a b).2 ∧
      ∀ policy, Merge.Reports (run ops) ((run ops).union a b policy).1 a b
        ((run ops).union a b policy).2) ∧
    ((∀ op ∈ sinceClear ops, op.annotates = false) →
      ∀ r, (run ops).isRepresentative r = true →
        (run ops).subsumed r = (run ops).classMembers r) := by
  have hflat := flat_run ops
  refine ⟨find_eq_iff_run ops, hflat.find_find, hflat.isRepresentative_iff, fun x => ?_,
    hflat.size.symm, fun a b => ?_, fun hops r hr => ?_⟩
  · have hperm := hflat.perm_classMembers x
    exact ⟨IdSet.ascending_ofList _, hflat.mem_classMembers x, hperm, hperm.length_eq.symm⟩
  · exact ⟨(merging_mergeInto _ a b).reports hflat.toValid,
      fun policy => (merging_union _ a b policy).reports hflat.toValid⟩
  · exact (annotated_run ops hops).subsumed_eq hflat ((hflat.isRepresentative_iff r).mp hr)

/-- Merges and annotations from before a clearing are forgotten. -/
theorem run_generates_after_clear :
    (run [.mergeInto 0 1, .subsume 1 5, .clear, .union 2 3 .largerClass, .mergeInto 4 2]).subsumed 3
      = ⟨[2, 3, 4]⟩ ∧
    ¬ Relation.EqvGen (Paired [.mergeInto 0 1, .subsume 1 5, .clear, .union 2 3 .largerClass,
      .mergeInto 4 2]) 0 1 := by
  obtain ⟨hgen, -, -, -, -, -, hsub⟩ := run_generates
    [.mergeInto 0 1, .subsume 1 5, .clear, .union 2 3 .largerClass, .mergeInto 4 2]
  refine ⟨(hsub (by decide) 3 (by decide)).trans (by decide), fun h => ?_⟩
  exact absurd ((hgen 0 1).mpr h) (by decide)

end PointsTo.Partition
