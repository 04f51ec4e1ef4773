import Mathlib.Data.List.Perm.Basic
import SatWalk.Proofs.Json.Restore
import SatWalk.Proofs.Text.ByteOrder

/-! Values that differ only in the order of members. Canonical text is the same for two values if
and only if they are alike in this sense. Sorting a value gives a value alike that lists the keys
of each of its objects by their bytes, and sorting it again changes nothing. -/

namespace SatWalk.Json

variable {v w : Value} {items items' : List Value} {members members' : List (String × Value)}

/-! ### Nested values -/

/-- Induction over a value: an array is reached from its items, an object from its members. -/
@[elab_as_elim]
theorem Value.nested_induction {motive : Value → Prop} (null : motive .null)
    (boolean : ∀ b, motive (.boolean b)) (number : ∀ n, motive (.number n))
    (string : ∀ t, motive (.string t))
    (array : ∀ items, (∀ v ∈ items, motive v) → motive (.array items))
    (object : ∀ members, (∀ m ∈ members, motive m.2) → motive (.object members)) (v : Value) :
    motive v :=
  match v with
  | .null => null
  | .boolean b => boolean b
  | .number n => number n
  | .string t => string t
  | .array items =>
    array items fun item _ => nested_induction null boolean number string array object item
  | .object members =>
    object members fun (_, value) _ =>
      nested_induction null boolean number string array object value
termination_by sizeOf v
decreasing_by
  · have hitem := List.sizeOf_lt_of_mem ‹_ ∈ items›
    simp only [Value.array.sizeOf_spec]
    omega
  · have hmember := List.sizeOf_lt_of_mem ‹_ ∈ members›
    simp only [Value.object.sizeOf_spec, Prod.mk.sizeOf_spec] at hmember ⊢
    omega

/-- The values are the same but for the order of the members of their objects, at every depth. -/
inductive Value.Alike : Value → Value → Prop
  | null : Alike .null .null
  | boolean (b : Bool) : Alike (.boolean b) (.boolean b)
  | number (n : Number) : Alike (.number n) (.number n)
  | string (text : String) : Alike (.string text) (.string text)
  | array {items items' : List Value} (each : List.Forall₂ Alike items items') :
    Alike (.array items) (.array items')
  | object {members reordered members' : List (String × Value)}
    (keys : members.map (·.1) = reordered.map (·.1))
    (values : List.Forall₂ Alike (members.map (·.2)) (reordered.map (·.2)))
    (order : reordered.Perm members') :
    Alike (.object members) (.object members')

/-- At every depth, the keys of an object are as `p` says. -/
inductive Value.EveryObject (p : List String → Prop) : Value → Prop
  | null : EveryObject p .null
  | boolean (b : Bool) : EveryObject p (.boolean b)
  | number (n : Number) : EveryObject p (.number n)
  | string (text : String) : EveryObject p (.string text)
  | array {items : List Value} (each : ∀ v ∈ items, EveryObject p v) :
    EveryObject p (.array items)
  | object {members : List (String × Value)} (keys : p (members.map (·.1)))
    (each : ∀ m ∈ members, EveryObject p m.2) : EveryObject p (.object members)

theorem everyObject_array {p : List String → Prop} :
    (Value.array items).EveryObject p ↔ ∀ v ∈ items, v.EveryObject p := by
  refine ⟨fun h => ?_, .array⟩
  cases h with
  | array each => exact each

theorem everyObject_object {p : List String → Prop} :
    (Value.object members).EveryObject p ↔
      p (members.map (·.1)) ∧ ∀ m ∈ members, m.2.EveryObject p := by
  refine ⟨fun h => ?_, fun h => .object h.1 h.2⟩
  cases h with
  | object keys each => exact ⟨keys, each⟩

/-- No object has two members with one key. -/
def Value.Keyed (v : Value) : Prop :=
  v.EveryObject List.Nodup

/-- Every object lists its keys in ascending order of their bytes. -/
def Value.Ascending (v : Value) : Prop :=
  v.EveryObject (List.Pairwise fun a b => Text.toBytes a < Text.toBytes b)

/-! ### Values that are read

Members with one key are joined when an object is read, so no key is left twice. -/

variable {latest : Std.HashMap String Value} {seen : Std.HashSet String} {P : Value → Prop}

theorem not_mem_seen_of_firstMembers {m : String × Value}
    (h : m ∈ firstMembers latest seen members) : m.1 ∉ seen := by
  induction members generalizing seen with
  | nil => cases h
  | cons x rest ih =>
    rw [firstMembers] at h
    split at h
    case isTrue => exact ih h
    case isFalse hx =>
      rcases List.mem_cons.1 h with rfl | h
      · exact hx
      · exact fun hm => ih h (Std.HashSet.mem_insert.2 (.inr hm))

theorem nodup_keys_firstMembers (latest : Std.HashMap String Value) (seen : Std.HashSet String)
    (members : List (String × Value)) :
    ((firstMembers latest seen members).map (·.1)).Nodup := by
  induction members generalizing seen with
  | nil => exact List.nodup_nil
  | cons x rest ih =>
    rw [firstMembers]
    split
    case isTrue => exact ih seen
    case isFalse =>
      refine List.nodup_cons.2 ⟨fun hmem => ?_, ih _⟩
      obtain ⟨m, hm, hkey⟩ := List.mem_map.1 hmem
      exact not_mem_seen_of_firstMembers hm (hkey ▸ Std.HashSet.mem_insert_self)

theorem forall_firstMembers (hlatest : ∀ key d, P d → P (latest.getD key d))
    (hmembers : ∀ m ∈ members, P m.2) : ∀ m ∈ firstMembers latest seen members, P m.2 := by
  induction members generalizing seen with
  | nil => nofun
  | cons x rest ih =>
    rw [List.forall_mem_cons] at hmembers
    rw [firstMembers]
    split
    case isTrue => exact ih hmembers.2
    case isFalse =>
      exact List.forall_mem_cons.2 ⟨hlatest _ _ hmembers.1, ih hmembers.2⟩

/-- What is looked up among the latest values is one of them or the value that stands in for it. -/
theorem getD_latest (hmembers : ∀ m ∈ members, P m.2)
    (hlatest : ∀ key d, P d → P (latest.getD key d)) (key : String) {d : Value} (hd : P d) :
    P ((members.foldl (fun latest (key, value) => latest.insert key value) latest).getD key d) := by
  induction members generalizing latest with
  | nil => exact hlatest key d hd
  | cons x rest ih =>
    rw [List.forall_mem_cons] at hmembers
    refine ih hmembers.2 fun key d hd => ?_
    rw [Std.HashMap.getD_insert]
    split
    case isTrue => exact hmembers.1
    case isFalse => exact hlatest key d hd

theorem keyed_mergeMembers (h : ∀ m ∈ members, m.2.Keyed) :
    (Value.object (mergeMembers members)).Keyed :=
  .object (nodup_keys_firstMembers _ _ members)
    (forall_firstMembers (fun key _ hd => getD_latest h (fun _ _ hd => by simpa using hd) key hd) h)

variable {cs rest : List Char} {depth : ℕ}

theorem keyed_of_readItems {value : Reader Value}
    (hvalue : ∀ cs v rest, value cs = .ok (v, rest) → v.Keyed) {steps : List Char} {first : Bool}
    {done : List Value} (hdone : ∀ v ∈ done, v.Keyed)
    (h : readItems value steps first done cs = .ok (items, rest)) : ∀ v ∈ items, v.Keyed := by
  induction steps generalizing first done cs with
  | nil => cases h
  | cons _ steps ih =>
    rw [readItems, Checked.bind_eq_ok_iff] at h
    obtain ⟨next, -, h⟩ := h
    cases next with
    | none =>
      obtain ⟨_, -, h⟩ := Checked.bind_eq_ok_iff.1 h
      cases h
      simpa using hdone
    | some cs =>
      obtain ⟨⟨v, cs⟩, hv, h⟩ := Checked.bind_eq_ok_iff.1 h
      exact ih (List.forall_mem_cons.2 ⟨hvalue _ v cs hv, hdone⟩) h

theorem keyed_of_readMembers {value : Reader Value}
    (hvalue : ∀ cs v rest, value cs = .ok (v, rest) → v.Keyed) {steps : List Char} {first : Bool}
    {done : List (String × Value)} (hdone : ∀ m ∈ done, m.2.Keyed)
    (h : readMembers value steps first done cs = .ok (members, rest)) :
    (Value.object members).Keyed := by
  induction steps generalizing first done cs with
  | nil => cases h
  | cons _ steps ih =>
    rw [readMembers, Checked.bind_eq_ok_iff] at h
    obtain ⟨next, -, h⟩ := h
    cases next with
    | none =>
      obtain ⟨_, -, h⟩ := Checked.bind_eq_ok_iff.1 h
      cases h
      exact keyed_mergeMembers (by simpa using hdone)
    | some cs =>
      obtain ⟨⟨key, cs⟩, -, h⟩ := Checked.bind_eq_ok_iff.1 h
      obtain ⟨⟨_, cs⟩, -, h⟩ := Checked.bind_eq_ok_iff.1 h
      obtain ⟨⟨v, cs⟩, hv, h⟩ := Checked.bind_eq_ok_iff.1 h
      exact ih (List.forall_mem_cons.2 ⟨hvalue _ v cs hv, hdone⟩) h

theorem keyed_of_readValueWith {readArray : Reader (List Value)}
    {readObject : Reader (List (String × Value))}
    (harray : ∀ cs items rest, readArray cs = .ok (items, rest) → ∀ v ∈ items, v.Keyed)
    (hobject : ∀ cs members rest, readObject cs = .ok (members, rest) →
      (Value.object members).Keyed)
    (h : readValueWith readArray readObject cs = .ok (v, rest)) : v.Keyed := by
  unfold readValueWith at h
  split at h
  · cases h
  · obtain ⟨_, -, h⟩ := Checked.bind_eq_ok_iff.1 h
    cases h
    exact .null
  · obtain ⟨_, -, h⟩ := Checked.bind_eq_ok_iff.1 h
    cases h
    exact .boolean true
  · obtain ⟨_, -, h⟩ := Checked.bind_eq_ok_iff.1 h
    cases h
    exact .boolean false
  · obtain ⟨⟨text, _⟩, -, h⟩ := Checked.bind_eq_ok_iff.1 h
    cases h
    exact .string text
  · obtain ⟨⟨items, _⟩, hitems, h⟩ := Checked.bind_eq_ok_iff.1 h
    cases h
    exact .array (harray _ items _ hitems)
  · obtain ⟨⟨members, _⟩, hmembers, h⟩ := Checked.bind_eq_ok_iff.1 h
    cases h
    exact hobject _ members _ hmembers
  · split at h
    case isTrue =>
      obtain ⟨⟨n, _⟩, -, h⟩ := Checked.bind_eq_ok_iff.1 h
      cases h
      exact .number n
    case isFalse => cases h

theorem keyed_of_readValue (h : readValue depth cs = .ok (v, rest)) : v.Keyed := by
  induction depth generalizing cs v rest with
  | zero =>
    exact keyed_of_readValueWith (fun _ _ _ h => by cases h) (fun _ _ _ h => by cases h) h
  | succ depth ih =>
    refine keyed_of_readValueWith ?_ ?_ h
    · intro cs items rest
      exact keyed_of_readItems (fun _ _ _ => ih) (List.forall_mem_nil _)
    · intro cs members rest
      exact keyed_of_readMembers (fun _ _ _ => ih) (List.forall_mem_nil _)

/-- What text is read as has each key once in each of its objects, also where the text repeats
one. -/
theorem keyed_of_parse {text : String} (h : Value.parse text = .ok v) : v.Keyed := by
  obtain ⟨⟨v', rest⟩, hread, hfinish⟩ := Checked.bind_eq_ok_iff.1 h
  dsimp only [finish] at hfinish
  split at hfinish
  case isTrue =>
    cases hfinish
    exact keyed_of_readValue hread
  case isFalse => cases hfinish

/-! ### Sorted objects -/

theorem mem_sorted_members {m : String × Value} :
    m ∈ (sortValues members).mergeSort (fun a b => a.1 ≤ b.1) ↔
      ∃ x ∈ members, (x.1, x.2.sorted) = m := by
  rw [List.mem_mergeSort, sortValues_eq_map, List.mem_map]

theorem sortValues_eq_iff :
    sortValues members = sortValues members' ↔ members.map (·.1) = members'.map (·.1) ∧
      (members.map (·.2)).map Value.sorted = (members'.map (·.2)).map Value.sorted := by
  induction members generalizing members' with
  | nil => cases members' <;> simp [sortValues]
  | cons m rest ih =>
    cases members' with
    | nil => simp [sortValues]
    | cons m' rest' =>
      simp only [sortValues, List.map_cons, List.cons.injEq, Prod.mk.injEq, ih]
      exact and_and_and_comm

theorem keys_nodup_sortValues (h : (members.map (·.1)).Nodup) :
    ((sortValues members).map (·.1)).Nodup := by
  rwa [keys_sortValues]

theorem sorted_object_eq_of_perm (hnodup : (members.map (·.1)).Nodup)
    (hperm : (sortValues members).Perm (sortValues members')) :
    (Value.object members).sorted = (Value.object members').sorted :=
  congrArg Value.object (mergeSort_eq_of_perm hperm (keys_nodup_sortValues hnodup))

/-! ### Sorting and likeness -/

theorem map_sorted_eq_of_alike (heach : List.Forall₂ Value.Alike items items')
    (h : ∀ v ∈ items, ∀ w, v.Alike w → v.sorted = w.sorted) :
    items.map Value.sorted = items'.map Value.sorted := by
  induction heach with
  | nil => rfl
  | cons hhead _ ih =>
    rw [List.forall_mem_cons] at h
    rw [List.map_cons, List.map_cons, h.1 _ hhead, ih h.2]

theorem alike_of_map_sorted_eq (heq : items.map Value.sorted = items'.map Value.sorted)
    (h : ∀ v ∈ items, ∀ w, v.sorted = w.sorted → v.Alike w) :
    List.Forall₂ Value.Alike items items' := by
  induction items generalizing items' with
  | nil =>
    cases items' with
    | nil => exact .nil
    | cons _ _ => cases heq
  | cons v rest ih =>
    cases items' with
    | nil => cases heq
    | cons w rest' =>
      rw [List.map_cons, List.map_cons, List.cons.injEq] at heq
      rw [List.forall_mem_cons] at h
      exact .cons (h.1 w heq.1) (ih heq.2 h.2)

/-- Values that are alike sort alike if keys tell their members apart. -/
theorem sorted_eq_of_alike (hkeyed : v.Keyed) (h : v.Alike w) : v.sorted = w.sorted := by
  -- The likeness of parts stands inside that of lists, so the induction is on the value.
  induction v using Value.nested_induction generalizing w with
  | null => cases h; rfl
  | boolean b => cases h; rfl
  | number n => cases h; rfl
  | string text => cases h; rfl
  | array items ih =>
    have hitems := everyObject_array.1 hkeyed
    cases h with
    | array heach =>
      rw [Value.sorted, Value.sorted, sortItems_eq_map, sortItems_eq_map,
        map_sorted_eq_of_alike heach fun v hv w => ih v hv (hitems v hv)]
  | object members ih =>
    obtain ⟨hnodup, hmembers⟩ := everyObject_object.1 hkeyed
    cases h with
    | @object _ reordered members' hkeys hvalues horder =>
      -- The two orders have the same sorted members, and these have one order by their keys.
      have hsort : sortValues members = sortValues reordered := by
        refine sortValues_eq_iff.2 ⟨hkeys, map_sorted_eq_of_alike hvalues ?_⟩
        intro v hv w
        obtain ⟨m, hm, rfl⟩ := List.mem_map.1 hv
        exact ih m hm (hmembers m hm)
      refine sorted_object_eq_of_perm hnodup ?_
      rw [hsort, sortValues_eq_map, sortValues_eq_map]
      exact horder.map _

/-- Values that sort alike are alike: sorting keeps the values apart but for the order. -/
theorem alike_of_sorted_eq (h : v.sorted = w.sorted) : v.Alike w := by
  induction v using Value.nested_induction generalizing w with
  | null => cases w <;> cases h; exact .null
  | boolean b => cases w <;> cases h; exact .boolean b
  | number n => cases w <;> cases h; exact .number n
  | string text => cases w <;> cases h; exact .string text
  | array items ih =>
    cases w with
    | array items' =>
      rw [Value.sorted, Value.sorted, sortItems_eq_map, sortItems_eq_map,
        Value.array.injEq] at h
      exact .array (alike_of_map_sorted_eq h fun v hv w => ih v hv)
    | _ => cases h
  | object members ih =>
    cases w with
    | object members' =>
      obtain ⟨reordered, hsort, horder⟩ := exists_perm_of_perm_map
        (sortValues_eq_map members' ▸ perm_of_sorted_object_eq h)
      rw [← sortValues_eq_map] at hsort
      obtain ⟨hkeys, hvalues⟩ := sortValues_eq_iff.1 hsort
      refine .object hkeys (alike_of_map_sorted_eq hvalues ?_) horder
      intro v hv w
      obtain ⟨m, hm, rfl⟩ := List.mem_map.1 hv
      exact ih m hm
    | _ => cases h

theorem sorted_sorted (v : Value) : v.sorted.sorted = v.sorted := by
  induction v using Value.nested_induction with
  | null => rfl
  | boolean b => rfl
  | number n => rfl
  | string text => rfl
  | array items ih =>
    simp only [Value.sorted, sortItems_eq_map, List.map_map]
    exact congrArg Value.array (List.map_congr_left ih)
  | object members ih =>
    -- The values of the members are sorted already, and so is their order.
    have hfixed : sortValues ((sortValues members).mergeSort fun a b => a.1 ≤ b.1) =
        (sortValues members).mergeSort fun a b => a.1 ≤ b.1 := by
      refine (sortValues_eq_map _).trans ((List.map_congr_left fun m hm => ?_).trans
        (List.map_id _))
      obtain ⟨x, hx, rfl⟩ := mem_sorted_members.1 hm
      exact congrArg (Prod.mk x.1) (ih x hx)
    simp only [Value.sorted]
    rw [hfixed, mergeSort_eq_self (pairwise_keys_mergeSort _)]

theorem alike_sorted (v : Value) : v.Alike v.sorted :=
  alike_of_sorted_eq (sorted_sorted v).symm

theorem ascending_sorted (hkeyed : v.Keyed) : v.sorted.Ascending := by
  induction v using Value.nested_induction with
  | null => exact .null
  | boolean b => exact .boolean b
  | number n => exact .number n
  | string text => exact .string text
  | array items ih =>
    have hitems := everyObject_array.1 hkeyed
    rw [Value.sorted, sortItems_eq_map]
    exact .array (List.forall_mem_map.2 fun v hv => ih v hv (hitems v hv))
  | object members ih =>
    obtain ⟨hnodup, hmembers⟩ := everyObject_object.1 hkeyed
    rw [Value.sorted]
    refine .object ?_ fun m hm => ?_
    · have hdistinct : (((sortValues members).mergeSort fun a b => a.1 ≤ b.1).map (·.1)).Nodup :=
        (((List.mergeSort_perm _ _).map _).nodup_iff).2 (keys_nodup_sortValues hnodup)
      refine (pairwise_keys_mergeSort (sortValues members)).imp₂ (fun a b hle hne => ?_) hdistinct
      exact Text.toBytes_lt_toBytes (lt_of_le_of_ne hle hne)
    · obtain ⟨x, hx, rfl⟩ := mem_sorted_members.1 hm
      exact ih x hx (hmembers x hx)

/-- Two values have one canonical text if and only if they are alike. The sorted form of a value is
alike to it, lists keys in the order of their bytes, and is its own sorted form. -/
theorem canonical_up_to_order (hkeyed : v.Keyed) (w : Value) :
    (v.canonical = w.canonical ↔ v.Alike w) ∧ v.sorted.sorted = v.sorted ∧ v.sorted.Ascending ∧
      v.Alike v.sorted := by
  refine ⟨⟨fun h => ?_, fun h => ?_⟩, sorted_sorted v, ascending_sorted hkeyed, alike_sorted v⟩
  · exact alike_of_sorted_eq (compact_inj h)
  · rw [Value.canonical, Value.canonical, sorted_eq_of_alike hkeyed h]

/-- Two members with an array in it that holds an object, in either order. -/
def shuffled : Value :=
  .object [("b", .ofInt 1), ("a", .array [.object [("y", .string "d"), ("x", .null)]])]

def unshuffled : Value :=
  .object [("a", .array [.object [("x", .null), ("y", .string "d")]]), ("b", .ofInt 1)]

theorem canonical_up_to_order_shuffled :
    shuffled.Keyed ∧ shuffled.Alike unshuffled ∧ shuffled.canonical = unshuffled.canonical ∧
      shuffled.sorted.sorted = shuffled.sorted ∧ shuffled.sorted.Ascending := by
  have hkeyed : shuffled.Keyed := by
    refine .object (by decide) (List.forall_mem_cons.2 ⟨.number _, List.forall_mem_singleton.2 ?_⟩)
    refine .array (List.forall_mem_singleton.2 (.object (by decide) ?_))
    exact List.forall_mem_cons.2 ⟨.string _, List.forall_mem_singleton.2 .null⟩
  have hinner : (Value.object [("y", .string "d"), ("x", .null)]).Alike
      (.object [("x", .null), ("y", .string "d")]) :=
    .object rfl (.cons (.string _) (.cons .null .nil)) (.swap ("x", Value.null) ("y", _) [])
  have halike : shuffled.Alike unshuffled := by
    refine .object ?_ ?_ (List.Perm.swap ("a", _) ("b", _) [])
    · rfl
    · exact .cons (.number _) (.cons (.array (.cons hinner .nil)) .nil)
  have h := canonical_up_to_order hkeyed unshuffled
  exact ⟨hkeyed, halike, h.1.2 halike, h.2.1, h.2.2.1⟩

end SatWalk.Json
