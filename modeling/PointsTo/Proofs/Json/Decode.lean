import PointsTo.Json.Records
import PointsTo.Proofs.Json.Number

/-!
# Data that is read back

What was written as a list, a record or a choice is read as what it was. A record is written with
its fields in order and under different names, so each name finds its own field; a key of a table is
written by its digits, so it is the identifier that its digits tell.

## Main results

* `formed_ofString`, `formed_ofNats`, `formed_ofMembers`: a text can hold what is written
* `ids?_ofNats`: a list of identifiers is read back
* `filter_fst_eq`, `find?_name_eq`: a name that stands once is found
* `fields?_ofMembers`: the fields of a record are read back, in order
* `idKey?_toDigits`: a key is read back
* `choice?_ofString`, `optional_ofOption`: choices and missing values are read back
* `lt_of_mem_ids?`, `exists_of_mem_idTable?`: identifiers that were read have 32 bits
* `IdSet.ofJson?_toJson`, `AnalysisKind.ofJson?_toJson`: sets and kinds are read back
-/

namespace PointsTo.Json

/-! ## What is written can stand in a text -/

theorem formed_ofString (s : String) : (ofString s).Formed := .string (quotable_escape s)

/-- Digits need no escape. -/
theorem quotable_of_isDigit {cs : List Char} (h : ∀ c ∈ cs, c.isDigit = true) : Quotable cs := by
  induction cs with
  | nil => exact .nil
  | cons c cs ih =>
    have hc : 48 ≤ c.toNat ∧ c.toNat ≤ 57 := by
      simpa [Char.isDigit, UInt32.le_iff_toNat_le] using h c List.mem_cons_self
    refine .plain (by omega) ?_ ?_ (ih fun d hd => h d (List.mem_cons_of_mem c hd))
    · rintro rfl
      exact absurd hc (by decide)
    · rintro rfl
      exact absurd hc (by decide)

theorem formed_ofNats (ns : List Nat) : (ofNats ns).Formed := by
  refine .array fun item hitem => ?_
  obtain ⟨n, -, rfl⟩ := List.mem_map.mp hitem
  exact formed_ofNat n

theorem formed_ofMembers {members : List (String × Json)} (h : ∀ m ∈ members, m.2.Formed) :
    (ofMembers members).Formed := by
  refine .object (fun m hm => ?_) fun m hm => ?_
  · obtain ⟨m, -, rfl⟩ := List.mem_map.mp hm
    exact quotable_escape m.1
  · obtain ⟨m, hmember, rfl⟩ := List.mem_map.mp hm
    exact h m hmember

theorem formed_ofMembers_zip {values : List Json} (names : List String)
    (h : ∀ v ∈ values, v.Formed) : (ofMembers (names.zip values)).Formed :=
  formed_ofMembers fun m hm => h m.2 (List.of_mem_zip hm).2

/-! ## Lists -/

/-- A list whose items are written one by one is read back one by one. -/
theorem mapM_map_eq_some {α β γ : Type} {write : α → β} {read : β → Option γ} {g : α → γ}
    {xs : List α} (h : ∀ x ∈ xs, read (write x) = some (g x)) :
    (xs.map write).mapM read = some (xs.map g) := by
  induction xs with
  | nil => rfl
  | cons x xs ih =>
    rw [List.map_cons, List.mapM_cons, h x List.mem_cons_self,
      ih fun y hy => h y (List.mem_cons_of_mem x hy)]
    rfl

/-- **A list of identifiers is read back.** -/
theorem ids?_ofNats {ns : List Nat} (h : ∀ n ∈ ns, n < Id.bound) : (ofNats ns).ids? = some ns := by
  have hread : (ns.map ofNat).mapM id? = some (ns.map id) :=
    mapM_map_eq_some fun n hn => natBelow?_ofNat (h n hn)
  rwa [List.map_id] at hread

/-! ## Names -/

/-- A name that stands once finds its entry. -/
theorem filter_fst_eq {α : Type} {entries : List (String × α)} (h : (entries.map Prod.fst).Nodup)
    {m : String × α} (hm : m ∈ entries) : entries.filter (fun other => other.1 = m.1) = [m] := by
  induction entries with
  | nil => cases hm
  | cons first rest ih =>
    obtain ⟨hfirst, hrest⟩ := List.nodup_cons.mp h
    rcases List.mem_cons.mp hm with rfl | hm
    · have hnone : rest.filter (fun other => other.1 = m.1) = [] := by
        refine List.filter_eq_nil_iff.mpr fun other hother heq => hfirst ?_
        exact List.mem_map.mpr ⟨other, hother, of_decide_eq_true heq⟩
      rw [List.filter_cons_of_pos (by simp), hnone]
    · have hne : first.1 ≠ m.1 := fun heq => hfirst (List.mem_map.mpr ⟨m, hm, heq.symm⟩)
      rw [List.filter_cons_of_neg (by simpa using hne), ih hrest hm]

/-- A name that no other choice has finds its choice. -/
theorem find?_name_eq {α : Type} {name : α → String} {all : List α} {a : α} (ha : a ∈ all)
    (hname : ∀ b ∈ all, name b = name a → b = a) :
    (all.find? fun b => name b = name a) = some a := by
  have hfound : (all.find? fun b => name b = name a).isSome :=
    List.find?_isSome.mpr ⟨a, ha, decide_eq_true rfl⟩
  obtain ⟨b, hb⟩ := Option.isSome_iff_exists.mp hfound
  have hsame : name b = name a := by simpa using List.find?_some hb
  rw [hb, hname b (List.mem_of_find?_eq_some hb) hsame]

/-! ## Records -/

section Records

variable {members : List (String × Json)}

theorem field?_eq_some (h : (members.map Prod.fst).Nodup) {m : String × Json} (hm : m ∈ members) :
    field? members m.1 = some (some m.2) := by
  rw [field?, filter_fst_eq h hm]

/-- **The fields of a record are read back**, in the order in which they were written. -/
theorem fields?_ofMembers {names : List String} (hnames : names.Nodup)
    (hfst : members.map Prod.fst = names) :
    (ofMembers members).fields? names = some (members.map fun m => some m.2) := by
  subst hfst
  have hunescaped : (members.map fun m => (escape m.1, m.2)).mapM
      (fun m => (unescape? m.1).map (·, m.2)) = some (members.map id) := by
    refine mapM_map_eq_some fun m _ => ?_
    rw [unescape?_escape]
    rfl
  rw [List.map_id] at hunescaped
  change memberFields? (members.map Prod.fst) (members.map fun m => (escape m.1, m.2)) = _
  rw [memberFields?, hunescaped]
  exact mapM_map_eq_some fun m hm => field?_eq_some hnames hm

end Records

/-! ## Keys -/

/-- **A key is read back.** -/
theorem idKey?_toDigits {n : Nat} (h : n < Id.bound) : idKey? (Nat.toDigits 10 n) = some n := by
  have hdigits := digits_toDigits n
  have hall : (Nat.toDigits 10 n).all Char.isDigit = true := List.all_eq_true.mpr hdigits.isDigit
  have hempty : (Nat.toDigits 10 n).isEmpty = false := List.isEmpty_eq_false_iff.mpr hdigits.ne_nil
  have hleading : ((Nat.toDigits 10 n).head? != some '0' ||
      decide ((Nat.toDigits 10 n).length = 1)) = true := by
    by_cases hhead : (Nat.toDigits 10 n).head? = some '0'
    · rw [length_toDigits_of_head? hhead]
      simp
    · simp [bne, hhead]
  rw [idKey?, hall, hempty, hleading]
  exact natBelow?_ofNat h

/-! ## Choices and missing values -/

/-- **A choice is read back** when no other one has its name. -/
theorem choice?_ofString {α : Type} {name : α → String} {all : List α} {a : α} (ha : a ∈ all)
    (hname : ∀ b ∈ all, name b = name a → b = a) :
    choice? name all (ofString (name a)) = some a := by
  have hvariant : (ofString (name a)).variant? = some (name a) := unescape?_escape (name a)
  rw [choice?, hvariant, Option.bind_some, find?_name_eq ha hname]

/-- **A value that may be missing is read back** when it is not written as null. -/
theorem optional_ofOption {α : Type} {write : α → Json} {read : Json → Option α} {v : Option α}
    (h : ∀ a ∈ v, write a ≠ .null ∧ read (write a) = some a) :
    optional read (some (ofOption write v)) = some v := by
  cases v with
  | none => rfl
  | some a =>
    obtain ⟨hnull, hread⟩ := h a rfl
    rw [ofOption, optional, hread]
    · rfl
    · exact hnull

/-! ## What is read is within its bounds -/

section Bounds

variable {α β : Type} {j : Json} {bound n : Nat}

/-- Each item that was read was written. -/
theorem exists_mem_of_mapM_eq_some {f : α → Option β} {xs : List α} {ys : List β}
    (h : xs.mapM f = some ys) : ∀ y ∈ ys, ∃ x ∈ xs, f x = some y := by
  induction xs generalizing ys with
  | nil =>
    cases h
    simp
  | cons x xs ih =>
    rw [List.mapM_cons] at h
    obtain ⟨y, hy, h⟩ := Option.bind_eq_some_iff.mp h
    obtain ⟨rest, hrest, h⟩ := Option.bind_eq_some_iff.mp h
    cases h
    refine List.forall_mem_cons.mpr ⟨⟨x, List.mem_cons_self, hy⟩, fun z hz => ?_⟩
    obtain ⟨w, hw, hread⟩ := ih hrest z hz
    exact ⟨w, List.mem_cons_of_mem x hw, hread⟩

theorem Numeral.lt_of_natBelow? {numeral : Numeral} (h : numeral.natBelow? bound = some n) :
    n < bound := by
  rw [natBelow?] at h
  split at h
  · obtain ⟨hlt, hvalue⟩ := Option.ite_none_right_eq_some.mp h
    cases hvalue
    exact hlt
  · cases h

theorem lt_of_natBelow? (h : j.natBelow? bound = some n) : n < bound := by
  cases j with
  | number numeral => exact Numeral.lt_of_natBelow? h
  | _ => cases h

theorem lt_of_idKey? {raw : List Char} (h : idKey? raw = some n) : n < Id.bound := by
  rw [idKey?] at h
  split at h
  · exact Numeral.lt_of_natBelow? h
  · cases h

theorem lt_of_mem_ids? {ns : List Nat} (h : j.ids? = some ns) : ∀ n ∈ ns, n < Id.bound := by
  cases j with
  | array items =>
    intro n hn
    obtain ⟨item, -, hitem⟩ := exists_mem_of_mapM_eq_some h n hn
    exact lt_of_natBelow? hitem
  | _ => cases h

/-- The keys of a table that was read are identifiers, and its values were read. -/
theorem exists_of_mem_idTable? {read : Json → Option α} {entries : List (Nat × α)}
    (h : j.idTable? read = some entries) :
    ∀ e ∈ entries, e.1 < Id.bound ∧ ∃ value, read value = some e.2 := by
  cases j with
  | object members =>
    intro e he
    obtain ⟨⟨raw, value⟩, -, hm⟩ := exists_mem_of_mapM_eq_some h e he
    dsimp only at hm
    split at hm
    · rename_i hkey hvalue
      cases hm
      exact ⟨lt_of_idKey? hkey, value, hvalue⟩
    · cases hm
  | _ => cases h

end Bounds

end PointsTo.Json

namespace PointsTo

/-! ## Records of the analysis -/

theorem IdSet.formed_toJson (s : IdSet) : s.toJson.Formed := by
  refine Json.formed_ofMembers fun m hm => ?_
  obtain rfl := List.mem_singleton.mp hm
  exact Json.formed_ofNats s.elements

/-- **A set is read back**, element by element. -/
theorem IdSet.ofJson?_toJson {s : IdSet} (h : ∀ x ∈ s, x < Id.bound) :
    IdSet.ofJson? s.toJson = some s := by
  have hfields : s.toJson.fields? ["elements"] = some [some (.ofNats s.elements)] :=
    Json.fields?_ofMembers (by decide) rfl
  have hids : (Json.ofNats s.elements).ids? = some s.elements := Json.ids?_ofNats h
  rw [IdSet.ofJson?, hfields]
  simp only [Json.required, Option.bind_some, hids]
  rfl

theorem IdSet.lt_of_ofJson? {j : Json} {s : IdSet} (h : IdSet.ofJson? j = some s) :
    ∀ x ∈ s, x < Id.bound := by
  rw [IdSet.ofJson?] at h
  split at h
  · rename_i elements _
    obtain ⟨xs, hxs, h⟩ := Option.bind_eq_some_iff.mp h
    cases h
    obtain ⟨item, -, hitem⟩ := Option.bind_eq_some_iff.mp hxs
    exact Json.lt_of_mem_ids? hitem
  · cases h

theorem AnalysisKind.ofJson?_toJson (k : AnalysisKind) :
    AnalysisKind.ofJson? k.toJson = some k :=
  Json.choice?_ofString (by cases k; decide) (by cases k; decide)

end PointsTo
