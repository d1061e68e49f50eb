import Mathlib.Data.List.Induction
import PointsTo.Proofs.Call

/-!
# The function that an object stands for

A function table is read by name and by object. Inserting a function gives it its object, whoever
had the object before, and takes the object of the function that it replaces away, whoever has that
object now. So an object stands for the function of the last insertion that touched it, provided
that this insertion came with the object. A function that shares its object with another one is
forgotten as soon as the other one is replaced by one with another object.

## Main definitions

* `FunctionTable.Touches`: an insertion gives or takes an object
* `FunctionTable.Owned`: an object stands for a function that has it
* `FunctionTable.Stands`: the insertion that gave the object is the last one that touched it

## Main results

* `Owned.forObject?_insert`: what one insertion does to every object
* `forObject?_ofList_iff_stands`: after any insertions an object stands for the function of the last
  one that touched it
* `shared_object_forgotten`: a function in the table that its object does not stand for
-/

namespace PointsTo

/-- The places of a list with one more element at its end. -/
theorem getElem?_append_singleton_iff {α : Type} {xs : List α} {x y : α} {j : Nat} :
    (xs ++ [x])[j]? = some y ↔ (j < xs.length ∧ xs[j]? = some y) ∨ (j = xs.length ∧ y = x) := by
  rcases Nat.lt_trichotomy j xs.length with hlt | rfl | hgt
  · simp [List.getElem?_append_left hlt, hlt, hlt.ne]
  · simp [eq_comm]
  · have hnone : (xs ++ [x])[j]? = none :=
      List.getElem?_eq_none (by rw [List.length_append, List.length_singleton]; exact hgt)
    simp [hnone, hgt.ne', hgt.le]

namespace FunctionTable

variable {t : FunctionTable} {d f : FunctionDecl} {o : NodeId}

/-! ## One insertion -/

/-- Inserting `d` touches `o`: this is the object of `d`, or of the function that `d` replaces. -/
def Touches (t : FunctionTable) (d : FunctionDecl) (o : NodeId) : Prop :=
  d.object = o ∨ ∃ e, t.get? d.id = some e ∧ e.object = o

theorem get?_insert (t : FunctionTable) (d : FunctionDecl) (i : FunctionId) :
    (t.insert d).get? i = if d.id = i then some d else t.get? i := by
  rw [get?, insert, Std.ExtTreeMap.getElem?_insert, get?]
  simp only [Std.LawfulEqCmp.compare_eq_iff_eq]

theorem getElem?_byObject_insert_self (t : FunctionTable) (d : FunctionDecl) :
    (t.insert d).byObject[d.object]? = some d.id := by
  simp [insert]

theorem getElem?_byObject_insert_of_not_touches (h : ¬ t.Touches d o) :
    (t.insert d).byObject[o]? = t.byObject[o]? := by
  have hown : d.object ≠ o := fun heq => h (.inl heq)
  cases hold : t.get? d.id with
  | none => simp [insert, hold, Std.ExtTreeMap.getElem?_insert, hown]
  | some e =>
    have hmoved : e.object ≠ o := fun heq => h (.inr ⟨e, hold, heq⟩)
    simp [insert, hold, Std.ExtTreeMap.getElem?_insert, Std.ExtTreeMap.getElem?_erase, hown, hmoved]

/-- The object of a replaced function is taken away. -/
theorem getElem?_byObject_insert_of_replaced {e : FunctionDecl} (he : t.get? d.id = some e)
    (ho : e.object = o) (hown : d.object ≠ o) : (t.insert d).byObject[o]? = none := by
  rw [insert, he]
  simp [hown, ho]

/-! ## Owners -/

/-- What an object stands for is a function of the table that has this object. -/
def Owned (t : FunctionTable) : Prop :=
  ∀ o i, t.byObject[o]? = some i → ∃ f, t.get? i = some f ∧ f.object = o

/-- **What one insertion does to every object.** An object goes away with the function that `d`
replaces; every other function stays where it is. -/
theorem Owned.forObject?_insert (h : t.Owned) (d : FunctionDecl) (o : NodeId) :
    (t.insert d).forObject? o = some f ↔
      (d.object = o ∧ f = d) ∨ (¬ t.Touches d o ∧ t.forObject? o = some f) := by
  unfold forObject?
  by_cases htouch : t.Touches d o
  · by_cases hown : d.object = o
    · subst hown
      rw [getElem?_byObject_insert_self, Option.bind_some, get?_insert, if_pos rfl]
      simp [htouch, eq_comm]
    · obtain ⟨e, he, ho⟩ := htouch.resolve_left hown
      rw [getElem?_byObject_insert_of_replaced he ho hown]
      simp [htouch, hown]
  · have hown : d.object ≠ o := fun heq => htouch (.inl heq)
    rw [getElem?_byObject_insert_of_not_touches htouch]
    cases hby : t.byObject[o]? with
    | none => simp [hown]
    | some i =>
      obtain ⟨e, he, ho⟩ := h o i hby
      have hother : d.id ≠ i := by
        rintro rfl
        exact htouch (.inr ⟨e, he, ho⟩)
      rw [Option.bind_some, Option.bind_some, get?_insert, if_neg hother]
      simp [hown, htouch]

theorem Owned.insert (h : t.Owned) (d : FunctionDecl) : (t.insert d).Owned := by
  intro o i hi
  by_cases hown : d.object = o
  · subst hown
    rw [getElem?_byObject_insert_self] at hi
    obtain rfl : d.id = i := Option.some.inj hi
    exact ⟨d, by rw [get?_insert, if_pos rfl], rfl⟩
  · have htouch : ¬ t.Touches d o := by
      rintro (heq | ⟨e, he, ho⟩)
      · exact hown heq
      · rw [getElem?_byObject_insert_of_replaced he ho hown] at hi
        cases hi
    rw [getElem?_byObject_insert_of_not_touches htouch] at hi
    obtain ⟨f, hf, ho⟩ := h o i hi
    have hother : d.id ≠ i := by
      rintro rfl
      exact htouch (.inr ⟨f, hf, ho⟩)
    exact ⟨f, by rw [get?_insert, if_neg hother, hf], ho⟩

/-! ## Any insertions -/

@[simp] theorem ofList_append_singleton (ds : List FunctionDecl) (d : FunctionDecl) :
    ofList (ds ++ [d]) = (ofList ds).insert d := by
  simp [ofList]

theorem owned_ofList (ds : List FunctionDecl) : (ofList ds).Owned := by
  induction ds using List.reverseRecOn with
  | nil => exact fun o i hi => by simp [ofList, empty] at hi
  | append_singleton ds d ih =>
    rw [ofList_append_singleton]
    exact ih.insert d

/-- **The object stands for `f`**: `f` was inserted with this object, and no later insertion touched
it. -/
def Stands (ds : List FunctionDecl) (o : NodeId) (f : FunctionDecl) : Prop :=
  f.object = o ∧ ∃ i, ds[i]? = some f ∧
    ∀ j d, i < j → ds[j]? = some d → ¬ (ofList (ds.take j)).Touches d o

/-- The last insertion gives the object to its function, or leaves it alone. -/
theorem stands_append_singleton (ds : List FunctionDecl) (d : FunctionDecl) (o : NodeId)
    (f : FunctionDecl) :
    Stands (ds ++ [d]) o f ↔
      (d.object = o ∧ f = d) ∨ (¬ (ofList ds).Touches d o ∧ Stands ds o f) := by
  constructor
  · rintro ⟨ho, i, hi, hlater⟩
    rcases getElem?_append_singleton_iff.mp hi with ⟨hlt, hi⟩ | ⟨-, rfl⟩
    · refine .inr ⟨?_, ho, i, hi, fun j e hij hj => ?_⟩
      · have hlast := hlater ds.length d hlt (by simp)
        rwa [List.take_left] at hlast
      · have hjlt : j < ds.length := (List.getElem?_eq_some_iff.mp hj).1
        have hnot := hlater j e hij (getElem?_append_singleton_iff.mpr (.inl ⟨hjlt, hj⟩))
        rwa [List.take_append_of_le_length hjlt.le] at hnot
    · exact .inl ⟨ho, rfl⟩
  · rintro (⟨ho, rfl⟩ | ⟨hlast, ho, i, hi, hlater⟩)
    · refine ⟨ho, ds.length, by simp, fun j e hij hj => ?_⟩
      rcases getElem?_append_singleton_iff.mp hj with ⟨hlt, -⟩ | ⟨heq, -⟩
      · exact absurd hij (Nat.not_lt.mpr hlt.le)
      · exact absurd hij (Nat.not_lt.mpr heq.le)
    · have hilt : i < ds.length := (List.getElem?_eq_some_iff.mp hi).1
      refine ⟨ho, i, getElem?_append_singleton_iff.mpr (.inl ⟨hilt, hi⟩), fun j e hij hj => ?_⟩
      rcases getElem?_append_singleton_iff.mp hj with ⟨hlt, hj⟩ | ⟨rfl, rfl⟩
      · rw [List.take_append_of_le_length hlt.le]
        exact hlater j e hij hj
      · rwa [List.take_left]

/-- An object stands for the function of the last insertion that touched it. -/
theorem forObject?_eq_some_iff (ds : List FunctionDecl) (o : NodeId) (f : FunctionDecl) :
    (ofList ds).forObject? o = some f ↔ Stands ds o f := by
  induction ds using List.reverseRecOn with
  | nil => simp [forObject?, ofList, empty, Stands]
  | append_singleton ds d ih =>
    rw [ofList_append_singleton, (owned_ofList ds).forObject?_insert, stands_append_singleton, ih]

/-- **No function was moved away from the object**: what replaced a function that had it has it
too. -/
def Settles (ds : List FunctionDecl) (o : NodeId) : Prop :=
  ∀ j d e, ds[j]? = some d → (ofList (ds.take j)).get? d.id = some e → e.object = o → d.object = o

theorem Settles.of_append_singleton {ds : List FunctionDecl} (h : Settles (ds ++ [d]) o) :
    Settles ds o := by
  intro j g e hj he heo
  have hjlt : j < ds.length := (List.getElem?_eq_some_iff.mp hj).1
  refine h j g e (getElem?_append_singleton_iff.mpr (.inl ⟨hjlt, hj⟩)) ?_ heo
  rwa [List.take_append_of_le_length hjlt.le]

/-- Such an object stands for a function if one has it. -/
theorem exists_forObject?_of_settles {ds : List FunctionDecl} (h : Settles ds o)
    (hf : (ofList ds).get? f.id = some f) (ho : f.object = o) :
    ∃ g, (ofList ds).forObject? o = some g := by
  induction ds using List.reverseRecOn with
  | nil => simp [get?, ofList, empty] at hf
  | append_singleton ds d ih =>
    rw [ofList_append_singleton] at hf ⊢
    by_cases hown : d.object = o
    · exact ⟨d, ((owned_ofList ds).forObject?_insert d o).mpr (.inl ⟨hown, rfl⟩)⟩
    · have htouch : ¬ (ofList ds).Touches d o := by
        rintro (heq | ⟨e, he, heo⟩)
        · exact hown heq
        · refine hown (h ds.length d e (by simp) ?_ heo)
          rwa [List.take_left]
      have hother : d.id ≠ f.id := by
        intro heq
        rw [get?_insert, if_pos heq] at hf
        obtain rfl : d = f := Option.some.inj hf
        exact hown ho
      rw [get?_insert, if_neg hother] at hf
      obtain ⟨g, hg⟩ := ih h.of_append_singleton hf
      exact ⟨g, ((owned_ofList ds).forObject?_insert d o).mpr (.inr ⟨htouch, hg⟩)⟩

/-- **What an object stands for, after any insertions**: the function of the last one that touched
it. That function is in the table and has the object. An object that no function was moved away from
stands for a function exactly if a function of the table has it. -/
theorem forObject?_ofList_iff_stands (ds : List FunctionDecl) (o : NodeId) :
    (∀ f, (ofList ds).forObject? o = some f ↔ Stands ds o f) ∧
      (∀ f, (ofList ds).forObject? o = some f →
        f.object = o ∧ (ofList ds).get? f.id = some f) ∧
      (Settles ds o → ((∃ f, (ofList ds).forObject? o = some f) ↔
        ∃ f, (ofList ds).get? f.id = some f ∧ f.object = o)) := by
  have hstands := forObject?_eq_some_iff ds o
  have hfound : ∀ f, (ofList ds).forObject? o = some f →
      f.object = o ∧ (ofList ds).get? f.id = some f := by
    intro f hf
    exact ⟨((hstands f).mp hf).1, (valid_ofList ds).get?_of_forObject? hf⟩
  refine ⟨hstands, hfound, fun hsettles => ⟨?_, ?_⟩⟩
  · rintro ⟨f, hf⟩
    exact ⟨f, (hfound f hf).2, (hfound f hf).1⟩
  · rintro ⟨f, hf, ho⟩
    exact exists_forObject?_of_settles hsettles hf ho

/-- Two functions share an object, and the first one gets another object: the second one is in the
table with an object that stands for nothing. -/
theorem shared_object_forgotten :
    let first : FunctionDecl := { id := 1, name := "f1", object := 100 }
    let second : FunctionDecl := { id := 2, name := "f2", object := 100 }
    let t := ofList [first, second, { first with object := 150 }]
    t.get? 2 = some second ∧ second.object = 100 ∧ t.forObject? 100 = none := by
  decide +kernel

end FunctionTable

end PointsTo
