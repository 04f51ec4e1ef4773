import Mathlib.Data.List.Perm.Basic
import SatWalk.Fault
import SatWalk.Json.Codec

/-! Records decoded from the members of an object. Each field has the value of the member with its
key, or the value it has when it is left out; a closed record has no other members. So the order
of the members does not matter. -/

namespace SatWalk.Json

/-! ### Members by their keys -/

section Members

variable {key : String} {v : Value} {members : List (String × Value)}

theorem findMember?_cons (key : String) (m : String × Value) (members : List (String × Value)) :
    findMember? key (m :: members) = if m.1 = key then some m.2 else findMember? key members := by
  by_cases h : m.1 = key <;> simp [findMember?, h]

theorem findMember?_eq_none_iff : findMember? key members = none ↔ key ∉ members.map (·.1) := by
  induction members with
  | nil => simp [findMember?]
  | cons m members ih =>
    rw [findMember?_cons, List.map_cons, List.mem_cons, not_or, ← ih]
    split_ifs with hm
    · simp [hm]
    · simp [Ne.symm hm]

/-- Where no key is given twice, the member with a key is the one that is found. -/
theorem findMember?_eq_some_iff (h : (members.map (·.1)).Nodup) :
    findMember? key members = some v ↔ (key, v) ∈ members := by
  induction members with
  | nil => simp [findMember?]
  | cons m members ih =>
    rw [List.map_cons, List.nodup_cons] at h
    rw [findMember?_cons, List.mem_cons]
    split_ifs with hm
    · subst hm
      have hnew : (m.1, v) ∉ members := fun hmem => h.1 (List.mem_map_of_mem (f := (·.1)) hmem)
      simp [hnew, Prod.ext_iff, eq_comm]
    · simp [ih h.2, Prod.ext_iff, Ne.symm hm]

/-- Taking a member out leaves the others, in some order. -/
theorem takeMember_spec (key : String) (members : List (String × Value)) :
    (takeMember key members).1 = findMember? key members ∧
      members.Perm (((findMember? key members).map (key, ·)).toList ++
        (takeMember key members).2) := by
  cases hfind : members.find? (·.1 = key) with
  | none =>
    have hindex : members.findIdx? (·.1 = key) = none := by
      simpa using hfind
    simp [takeMember, findMember?, hindex, hfind]
  | some m =>
    obtain ⟨hm, before, after, rfl, hbefore⟩ := List.find?_eq_some_iff_append.1 hfind
    have hkey : m.1 = key := by simpa using hm
    have hmember : findMember? key (before ++ m :: after) = some m.2 := by
      rw [findMember?, hfind]
      rfl
    have hindex : (before ++ m :: after).findIdx? (·.1 = key) = some before.length := by
      rw [List.findIdx?_append, List.findIdx?_eq_none_iff.2 (by simpa using hbefore)]
      simp [List.findIdx?_cons, hkey]
    rw [takeMember, hindex]
    refine ⟨rfl, ?_⟩
    rw [hmember]
    obtain rfl | ⟨after, last, rfl⟩ := List.eq_nil_or_concat' after
    · have hlast : (before ++ [m]).dropLast = before := List.dropLast_concat
      simp [hlast, ← hkey]
    · have hlast : before ++ m :: (after ++ [last]) = before ++ m :: after ++ [last] := by simp
      rw [hlast]
      simp only [List.dropLast_concat, List.getLast?_concat]
      have hset : (before ++ m :: after).set before.length last = before ++ last :: after := by simp
      rw [if_pos (by simp), hset, ← hkey, ← hlast]
      have hmiddle : (before ++ m :: (after ++ [last])).Perm (m :: (before ++ (after ++ [last]))) :=
        List.perm_middle
      exact hmiddle.trans (List.Perm.cons m ((List.perm_append_singleton last after).append_left
        before))

theorem key_notMem_takeMember (h : (members.map (·.1)).Nodup) :
    key ∉ (takeMember key members).2.map (·.1) := by
  have hperm := (takeMember_spec key members).2.map (·.1)
  cases hfind : findMember? key members with
  | none =>
    rw [hfind] at hperm
    exact fun hmem => findMember?_eq_none_iff.1 hfind (hperm.mem_iff.2 hmem)
  | some v =>
    rw [hfind] at hperm
    exact (List.nodup_cons.1 (hperm.nodup_iff.1 h)).1

theorem mem_takeMember_iff (h : (members.map (·.1)).Nodup) {m : String × Value} :
    m ∈ (takeMember key members).2 ↔ m ∈ members ∧ m.1 ≠ key := by
  rw [(takeMember_spec key members).2.mem_iff, List.mem_append]
  constructor
  · intro hm
    refine ⟨.inr hm, ?_⟩
    rintro rfl
    exact key_notMem_takeMember h (List.mem_map_of_mem hm)
  · rintro ⟨hm | hm, hne⟩
    · obtain ⟨v, -, rfl⟩ := Option.map_eq_some_iff.1 (Option.mem_toList.1 hm)
      exact absurd rfl hne
    · exact hm

theorem nodup_keys_takeMember (h : (members.map (·.1)).Nodup) (key : String) :
    ((takeMember key members).2.map (·.1)).Nodup := by
  have hperm := (takeMember_spec key members).2.map (·.1)
  rw [List.map_append] at hperm
  exact (List.nodup_append.1 (hperm.nodup_iff.1 h)).2.1

/-- What the members give under a key, read as `reads` says, or else the default. -/
def Gives {α : Type} (members : List (String × Value)) (key : String) (default : α)
    (reads : Value → α → Prop) (x : α) : Prop :=
  (∀ v, (key, v) ∈ members → reads v x) ∧ (key ∉ members.map (·.1) → x = default)

theorem gives_iff {α : Type} {default x : α} {reads : Value → α → Prop}
    (h : (members.map (·.1)).Nodup) :
    Gives members key default reads x ↔
      match findMember? key members with
      | some v => reads v x
      | none => x = default := by
  cases hfind : findMember? key members with
  | none =>
    have hkey := findMember?_eq_none_iff.1 hfind
    refine ⟨fun hx => hx.2 hkey, fun hx => ⟨fun v hv => ?_, fun _ => hx⟩⟩
    exact absurd (List.mem_map_of_mem (f := (·.1)) hv) hkey
  | some v =>
    have hv := (findMember?_eq_some_iff h).1 hfind
    refine ⟨fun hx => hx.1 v hv, fun hx => ⟨fun w hw => ?_, fun hkey => ?_⟩⟩
    · rw [← findMember?_eq_some_iff h, hfind] at hw
      cases hw
      exact hx
    · exact absurd (List.mem_map_of_mem (f := (·.1)) hv) hkey

/-- Taking one member out changes nothing that the others give. -/
theorem gives_takeMember_iff {α : Type} {key' : String} {default x : α} {reads : Value → α → Prop}
    (h : (members.map (·.1)).Nodup) (hne : key' ≠ key) :
    Gives (takeMember key members).2 key' default reads x ↔
      Gives members key' default reads x := by
  simp [Gives, mem_takeMember_iff h, hne]

/-- What members give does not depend on their order. -/
theorem gives_congr {α : Type} {members' : List (String × Value)} {default x : α}
    {reads : Value → α → Prop} (h : members.Perm members') :
    Gives members key default reads x ↔ Gives members' key default reads x := by
  simp only [Gives, h.mem_iff, (h.map _).mem_iff]

end Members

/-! ### Fields by their keys -/

/-- The members give the field this value. -/
def Field.Given {α : Type} (members : List (String × Value)) (f : Field α) (x : α) : Prop :=
  match findMember? f.key members with
  | some v => f.codec.decode v = .ok x
  | none => f.absent = some x

/-- A field with a default. -/
theorem Field.given_orElse_iff {α : Type} {key : String} {codec : Codec α} {default x : α}
    {reads : Value → α → Prop} {members : List (String × Value)}
    (h : (members.map (·.1)).Nodup) (hreads : ∀ v x, codec.decode v = .ok x ↔ reads v x) :
    (Field.orElse key codec default).Given members x ↔ Gives members key default reads x := by
  rw [gives_iff h, Field.Given, show (Field.orElse key codec default).key = key from rfl]
  cases findMember? key members with
  | none => exact ⟨fun hx => (Option.some.inj hx).symm, fun hx => congrArg some hx.symm⟩
  | some v => exact hreads v x

namespace Fields

variable {τ δ : Type}

/-- The members give the fields these values. -/
def Given (members : List (String × Value)) : {τ δ : Type} → Fields τ δ → τ → Prop
  | _, _, .done, _ => True
  | _, _, .field head rest, (x, xs) => head.Given members x ∧ rest.Given members xs

/-- The members lead from the first slots to the second ones: each fills the slot of its key, which
must be free. -/
def Fills (members : List (String × Value)) : {τ δ : Type} → Fields τ δ → δ → δ → Prop
  | _, _, .done, _, _ => True
  | _, _, .field head rest, (slot, slots), (slot', slots') =>
    (match findMember? head.key members with
      | some v => slot = none ∧ ∃ x, head.codec.decode v = .ok x ∧ slot' = some x
      | none => slot' = slot) ∧ rest.Fills members slots slots'

variable {key : String} {v : Value} {members : List (String × Value)}

theorem fills_nil : {τ δ : Type} → (fs : Fields τ δ) → (slots slots' : δ) →
    (fs.Fills [] slots slots' ↔ slots' = slots)
  | _, _, .done, _, _ => by simp [Fills]
  | _, _, .field head rest, (slot, slots), (slot', slots') => by
    simp [Fills, fills_nil rest, findMember?]

theorem fills_cons_of_notMem : {τ δ : Type} → (fs : Fields τ δ) → {slots slots' : δ} →
    key ∉ fs.keys → (fs.Fills ((key, v) :: members) slots slots' ↔ fs.Fills members slots slots')
  | _, _, .done, _, _, _ => Iff.rfl
  | _, _, .field head rest, (slot, slots), (slot', slots'), h => by
    rw [keys, List.mem_cons, not_or] at h
    rw [Fills, Fills, findMember?_cons, if_neg h.1, fills_cons_of_notMem rest h.2]

theorem put_eq_ok_none_iff : {τ δ : Type} → (fs : Fields τ δ) → (slots : δ) →
    (fs.put key v slots = .ok none ↔ key ∉ fs.keys)
  | _, _, .done, _ => by simp [put, keys]
  | _, _, .field head rest, (slot, slots) => by
    by_cases hkey : head.key = key
    · cases slot with
      | none => cases hdecode : head.codec.decode v <;> simp [put, keys, hkey, hdecode]
      | some x => simp [put, keys, hkey]
    · rw [keys, List.mem_cons, not_or, ← put_eq_ok_none_iff rest slots, put, if_neg hkey]
      cases rest.put key v slots with
      | error e => simp
      | ok mid => cases mid <;> simp [Ne.symm hkey]

/-- Putting one member into its slot and then the others is putting all of them. -/
theorem put_fills (hnew : findMember? key members = none) : {τ δ : Type} → (fs : Fields τ δ) →
    (slots slots' : δ) → fs.keys.Nodup → key ∈ fs.keys →
    ((∃ mid, fs.put key v slots = .ok (some mid) ∧ fs.Fills members mid slots') ↔
      fs.Fills ((key, v) :: members) slots slots')
  | _, _, .done, _, _, _, hmem => by cases hmem
  | _, _, .field head rest, (slot, slots), (slot', slots'), hnodup, hmem => by
    rw [keys, List.nodup_cons] at hnodup
    rw [Fills, findMember?_cons]
    by_cases hkey : head.key = key
    · subst hkey
      rw [if_pos rfl, fills_cons_of_notMem rest hnodup.1]
      simp only [put, if_pos]
      cases slot with
      | none =>
        cases hdecode : head.codec.decode v with
        | error e => simp
        | ok x => simp [Fills, hnew]
      | some x => simp
    · have hrest : key ∈ rest.keys := (List.mem_cons.1 hmem).resolve_left (Ne.symm hkey)
      rw [if_neg (Ne.symm hkey), ← put_fills hnew rest slots slots' hnodup.2 hrest]
      simp only [put, if_neg hkey]
      cases hput : rest.put key v slots with
      | error e => simp
      | ok mid =>
        cases mid with
        | none => simp
        | some mid => simp [Fills]

/-- All members are put if no slot is filled twice and, in a closed record, each has a slot. -/
theorem putAll_eq_ok_iff (closed : Bool) (fs : Fields τ δ) (hnodup : fs.keys.Nodup)
    (hkeys : (members.map (·.1)).Nodup) (slots slots' : δ) :
    fs.putAll closed members slots = .ok slots' ↔
      (closed = true → ∀ m ∈ members, m.1 ∈ fs.keys) ∧ fs.Fills members slots slots' := by
  induction members generalizing slots with
  | nil => simp [putAll, fills_nil, eq_comm]
  | cons m members ih =>
    obtain ⟨key, v⟩ := m
    rw [List.map_cons, List.nodup_cons] at hkeys
    have hnew : findMember? key members = none := findMember?_eq_none_iff.2 hkeys.1
    rw [putAll]
    by_cases hmem : key ∈ fs.keys
    · rw [← put_fills hnew fs slots slots' hnodup hmem]
      cases hput : fs.put key v slots with
      | error e => simp
      | ok mid =>
        cases mid with
        | none => exact absurd hmem ((put_eq_ok_none_iff fs slots).1 hput)
        | some mid => simp [ih hkeys.2, hmem]
    · rw [(put_eq_ok_none_iff fs slots).2 hmem, fills_cons_of_notMem fs hmem]
      cases closed with
      | true => simp [hmem]
      | false => simp [ih hkeys.2]

/-- Once the members are put, the record is complete with the values that they give. -/
theorem complete_eq_ok_iff : {τ δ : Type} → (fs : Fields τ δ) → {slots : δ} → {t : τ} →
    fs.Fills members fs.blank slots → (fs.complete slots = .ok t ↔ fs.Given members t)
  | _, _, .done, _, _, _ => by simp [complete, Given]
  | _, _, .field head rest, (slot, slots), (x, xs), h => by
    obtain ⟨hslot, hslots⟩ := h
    rw [complete, Given, Field.Given, ← complete_eq_ok_iff rest hslots]
    cases hfind : findMember? head.key members with
    | none =>
      rw [hfind] at hslot
      subst hslot
      cases head.absent with
      | none => simp
      | some y => cases rest.complete slots <;> simp
    | some v =>
      rw [hfind] at hslot
      obtain ⟨-, y, hy, rfl⟩ := hslot
      cases rest.complete slots <;> simp [hy]

/-- Members that give all values can be put. -/
theorem exists_fills : {τ δ : Type} → (fs : Fields τ δ) → {t : τ} → fs.Given members t →
    ∃ slots, fs.Fills members fs.blank slots
  | _, _, .done, _, _ => ⟨(), trivial⟩
  | _, _, .field head rest, (x, xs), h => by
    obtain ⟨hx, hxs⟩ := h
    obtain ⟨slots, hslots⟩ := exists_fills rest hxs
    cases hfind : findMember? head.key members with
    | none => exact ⟨(none, slots), by simp [Fills, blank, hfind, hslots]⟩
    | some v =>
      rw [Field.Given, hfind] at hx
      exact ⟨(some x, slots), by simp [Fills, blank, hfind, hslots, hx]⟩

end Fields

/-! ### Records -/

section Records

variable {τ δ ρ : Type} {name : String} {closed : Bool} {fs : Fields τ δ} {build : τ → ρ}
  {parts : ρ → τ} {members : List (String × Value)} {r : ρ}

/-- An object is decoded as the record of the values that its members give. -/
theorem decode_object_eq_ok_iff (hnodup : fs.keys.Nodup) (hkeys : (members.map (·.1)).Nodup) :
    (Codec.record name closed fs build parts).decode (.object members) = .ok r ↔
      (closed = true → ∀ m ∈ members, m.1 ∈ fs.keys) ∧ ∃ t, fs.Given members t ∧ build t = r := by
  have hblank (slots : δ) := fs.putAll_eq_ok_iff closed hnodup hkeys fs.blank slots
  simp only [Codec.record, Checked.bind_eq_ok_iff, hblank, Checked.pure_eq_ok, Except.ok.injEq]
  constructor
  · rintro ⟨slots, ⟨hclosed, hfills⟩, t, hcomplete, rfl⟩
    exact ⟨hclosed, t, (fs.complete_eq_ok_iff hfills).1 hcomplete, rfl⟩
  · rintro ⟨hclosed, t, hgiven, rfl⟩
    obtain ⟨slots, hfills⟩ := fs.exists_fills hgiven
    exact ⟨slots, ⟨hclosed, hfills⟩, t, (fs.complete_eq_ok_iff hfills).2 hgiven, rfl⟩

end Records

end SatWalk.Json
