import SatWalk.Proofs.Json.Restore

/-! Records read back from their text. The members of an object may come in any order: each fills
the field that has its key, and once all have been read the record is complete. So a codec restores
a record if the codecs of its fields restore their values. -/

namespace SatWalk.Json

variable {α τ δ ρ : Type} {s : Spacing} {level n : ℕ} {rest : List Char}

/-! ### Slots -/

namespace Fields

/-- What is known of a record while the members with the given keys are read. -/
def slots (known : List String) : {τ δ : Type} → Fields τ δ → τ → δ
  | _, _, .done, _ => ()
  | _, _, .field head rest, (x, xs) =>
    (if head.key ∈ known then some x else none, rest.slots known xs)

/-- Each field restores its value. -/
def Restores (n : ℕ) : {τ δ : Type} → Fields τ δ → τ → Prop
  | _, _, .done, _ => True
  | _, _, .field head rest, (x, xs) => head.codec.Restores n x ∧ rest.Restores n xs

theorem slots_nil : {τ δ : Type} → (fs : Fields τ δ) → (t : τ) → fs.slots [] t = fs.blank
  | _, _, .done, _ => rfl
  | _, _, .field head rest, (x, xs) => by
    rw [slots, blank, slots_nil rest xs, if_neg (List.not_mem_nil)]

theorem slots_congr {known known' : List String} : {τ δ : Type} → (fs : Fields τ δ) → (t : τ) →
    (∀ key ∈ fs.keys, key ∈ known ↔ key ∈ known') → fs.slots known t = fs.slots known' t
  | _, _, .done, _, _ => rfl
  | _, _, .field head rest, (x, xs), h => by
    obtain ⟨hhead, hrest⟩ := List.forall_mem_cons.1 h
    rw [slots, slots, slots_congr rest xs hrest]
    simp only [hhead]

/-- A record whose keys were all read is complete. -/
theorem complete_slots {known : List String} : {τ δ : Type} → (fs : Fields τ δ) → (t : τ) →
    (∀ key ∈ fs.keys, key ∈ known) → fs.complete (fs.slots known t) = .ok t
  | _, _, .done, _, _ => rfl
  | _, _, .field head rest, (x, xs), h => by
    obtain ⟨hhead, hrest⟩ := List.forall_mem_cons.1 h
    rw [slots, if_pos hhead, complete]
    exact Checked.bind_eq_ok_iff.2 ⟨_, complete_slots rest xs hrest, rfl⟩

theorem slots_cons_of_notMem {known : List String} {key : String} (fs : Fields τ δ) (t : τ)
    (h : key ∉ fs.keys) : fs.slots (key :: known) t = fs.slots known t := by
  apply slots_congr
  intro key' hkey'
  have hne : key' ≠ key := fun e => h (e ▸ hkey')
  simp [hne]

/-- The member with the key of the first field holds the value of that field. -/
theorem eq_of_mem_encode {head : Field α} {fs : Fields τ δ} {x : α} {xs : τ} {v : Value}
    (hkey : head.key ∉ fs.keys)
    (h : (head.key, v) ∈ sortValues ((Fields.field head fs).encode (x, xs))) :
    v = (head.codec.encode x).sorted := by
  rw [encode, sortValues, List.mem_cons] at h
  rcases h with h | h
  · exact (Prod.mk.inj h).2
  · have hmem := List.mem_map_of_mem (f := (·.1)) h
    rw [keys_sortValues, keys_encode] at hmem
    exact absurd hmem hkey

/-- A member with a new key fills the field of the key. -/
theorem exists_readPut {known : List String} {key : String} {v : Value} {depth : ℕ}
    (hdepth : n ≤ depth) (hnew : key ∉ known) :
    {τ δ : Type} → (fs : Fields τ δ) → (t : τ) → fs.keys.Nodup → fs.Restores n t →
      (key, v) ∈ sortValues (fs.encode t) →
        ∃ reader, fs.readPut key depth (fs.slots known t) = some reader ∧
          ∀ {s : Spacing} (level : ℕ) {rest : List Char}, s.Plain → Delimits rest →
            reader (':' :: (s.colon ++ (v.write s level ++ rest))) =
              .ok (fs.slots (key :: known) t, rest)
  | _, _, .done, _, _, _, hmem => by cases hmem
  | _, _, .field head fields, (x, xs), hnodup, hrestores, hmem => by
    rw [keys, List.nodup_cons] at hnodup
    by_cases hkey : head.key = key
    · subst hkey
      rw [slots, readPut, if_pos rfl]
      refine ⟨_, rfl, fun {s} level {rest} hs hrest => ?_⟩
      have hread := hrestores.1 depth hdepth level hs hs.colon hrest
      rw [slots, if_pos List.mem_cons_self, slots_cons_of_notMem fields xs hnodup.1,
        eq_of_mem_encode hnodup.1 hmem]
      simp only [if_neg hnew, Option.isSome_none, Bool.false_eq_true, if_false]
      rw [expectMark_cons rfl, Checked.ok_bind]
      dsimp only
      rw [hread]
      rfl
    · have hmem' : (key, v) ∈ sortValues (fields.encode xs) :=
        (List.mem_cons.1 hmem).resolve_left fun e => hkey (Prod.mk.inj e).1.symm
      obtain ⟨reader, hreader, hread⟩ :=
        exists_readPut hdepth hnew fields xs hnodup.2 hrestores.2 hmem'
      have hhead : (head.key ∈ key :: known) = (head.key ∈ known) := by simp [hkey]
      rw [slots, readPut, if_neg hkey, hreader]
      refine ⟨_, rfl, fun {s} level {rest} hs hrest => ?_⟩
      dsimp only
      rw [hread level hs hrest, slots]
      simp only [hhead]
      rfl

end Fields

/-! ### Members -/

theorem nextKey_write (hs : s.Plain) (first : Bool) (level : ℕ) (cs : List Char) :
    nextKey first (lead first ++ (s.inner level ++ '"' :: cs)) = .ok (some cs) := by
  have hskip : skipSpace (s.inner level ++ '"' :: cs) = '"' :: cs := by
    rw [skipSpace_append (hs.inner level), skipSpace_of_ne (by rintro _ ⟨⟩; rfl)]
  cases first with
  | true => simp [nextKey, lead, hskip]
  | false =>
    have hcomma (cs : List Char) : skipSpace (',' :: cs) = ',' :: cs := rfl
    simp [nextKey, lead, hskip, hcomma]

theorem nextKey_close (hs : s.Plain) (first : Bool) (level : ℕ) (rest : List Char) :
    nextKey first (s.outer level ++ '\x7d' :: rest) = .ok none := by
  unfold nextKey
  rw [skipSpace_append (hs.outer level)]
  rfl

theorem length_le_length_writeMembers (s : Spacing) (level : ℕ) (members : List (String × Value)) :
    members.length ≤ (writeMembers s level members).length := by
  induction members with
  | nil => exact le_rfl
  | cons member members ih =>
    simp only [writeMembers, List.length_append, List.length_cons]
    omega

/-- A member from its key on. -/
def memberText (s : Spacing) (level : ℕ) (key : String) (v : Value) : List Char :=
  '"' :: (key.toList.flatMap escape ++ '"' :: ':' :: (s.colon ++ v.write s (level + 1)))

section Members

variable {fs : Fields τ δ} {t : τ} {closed : Bool} {depth : ℕ} {known : List String}

/-- One member is read, with the comma before it. -/
theorem readPutAll_step (hs : s.Plain) (hnodup : fs.keys.Nodup) (hrestores : fs.Restores n t)
    (hdepth : n ≤ depth) {key : String} {v : Value} (hmem : (key, v) ∈ sortValues (fs.encode t))
    (hnew : key ∉ known) (hrest : Delimits rest) (first : Bool) (c : Char) (steps : List Char) :
    fs.readPutAll closed depth (c :: steps) first (fs.slots known t)
      (lead first ++ (s.inner level ++ (memberText s level key v ++ rest))) =
        fs.readPutAll closed depth steps false (fs.slots (key :: known) t) rest := by
  obtain ⟨reader, hreader, hread⟩ := fs.exists_readPut hdepth hnew t hnodup hrestores hmem
  have htext : memberText s level key v ++ rest =
      '"' :: (key.toList.flatMap escape ++
        '"' :: (':' :: (s.colon ++ (v.write s (level + 1) ++ rest)))) := by
    simp [memberText]
  rw [htext, Fields.readPutAll, nextKey_write hs, Checked.ok_bind]
  dsimp only
  rw [readString_write, Checked.ok_bind]
  dsimp only
  rw [hreader]
  dsimp only
  rw [hread (level + 1) hs hrest, Checked.ok_bind]

/-- The members after the first, up to the closing brace. -/
theorem readPutAll_write (hs : s.Plain) (hnodup : fs.keys.Nodup) (hrestores : fs.Restores n t)
    (hdepth : n ≤ depth) {members : List (String × Value)}
    (hmem : ∀ member ∈ members, member ∈ sortValues (fs.encode t))
    (hnew : (members.map (·.1) ++ known).Nodup) {steps : List Char}
    (hsteps : members.length < steps.length) (rest : List Char) :
    fs.readPutAll closed depth steps false (fs.slots known t)
      (writeMembers s level members ++ (s.outer level ++ '\x7d' :: rest)) =
        .ok (fs.slots ((members.map (·.1)).reverse ++ known) t, rest) := by
  induction members generalizing known steps with
  | nil =>
    cases steps with
    | nil => contradiction
    | cons _ steps =>
      change fs.readPutAll closed depth (_ :: steps) false (fs.slots known t)
        (s.outer level ++ '\x7d' :: rest) = _
      rw [Fields.readPutAll, nextKey_close hs, Checked.ok_bind]
      dsimp only
      rw [expectMark_append (hs.outer level) rfl]
      rfl
  | cons member members ih =>
    obtain ⟨key, v⟩ := member
    cases steps with
    | nil => contradiction
    | cons _ steps =>
      obtain ⟨hhead, hmem⟩ := List.forall_mem_cons.1 hmem
      rw [List.map_cons, List.cons_append, List.nodup_cons, List.mem_append, not_or] at hnew
      have htext : writeMembers s level ((key, v) :: members) ++ (s.outer level ++ '\x7d' :: rest) =
          lead false ++ (s.inner level ++ (memberText s level key v ++
            (writeMembers s level members ++ (s.outer level ++ '\x7d' :: rest)))) := by
        simp [writeMembers, memberText, writeString, lead]
      have hnew' : (members.map (·.1) ++ key :: known).Nodup := by
        rw [List.nodup_middle, List.nodup_cons, List.mem_append, not_or]
        exact hnew
      rw [htext, readPutAll_step hs hnodup hrestores hdepth hhead hnew.1.2
        (delimits_members hs level members rest), ih hmem hnew' (Nat.lt_of_succ_lt_succ hsteps)]
      simp

/-- An object with all fields in any order is read after its opening brace. -/
theorem exists_write_object (closed : Bool) (hs : s.Plain) (hnodup : fs.keys.Nodup)
    (hrestores : fs.Restores n t) (hdepth : n ≤ depth) {members : List (String × Value)}
    (hperm : members.Perm (sortValues (fs.encode t))) (level : ℕ) (rest : List Char) :
    ∃ body draft, (Value.object members).write s level ++ rest = '\x7b' :: body ∧
      fs.readPutAll closed depth body true fs.blank body = .ok (draft, rest) ∧
      fs.complete draft = .ok t := by
  have hkeys : (members.map (·.1)).Perm fs.keys := by
    have hmap := hperm.map (·.1)
    rwa [keys_sortValues, keys_encode] at hmap
  have hmem : ∀ member ∈ members, member ∈ sortValues (fs.encode t) :=
    fun member hmember => hperm.mem_iff.1 hmember
  have hcomplete {known : List String} (hknown : ∀ key ∈ members.map (·.1), key ∈ known) :
      fs.complete (fs.slots known t) = .ok t :=
    fs.complete_slots t fun key hkey => hknown key (hkeys.mem_iff.2 hkey)
  have hnew := hkeys.nodup_iff.2 hnodup
  rw [← fs.slots_nil t]
  cases members with
  | nil => exact ⟨'\x7d' :: rest, _, rfl, rfl, hcomplete (by simp)⟩
  | cons member members =>
    obtain ⟨key, v⟩ := member
    obtain ⟨hhead, hmem⟩ := List.forall_mem_cons.1 hmem
    rw [List.map_cons, List.nodup_cons] at hnew
    have hnew' : (members.map (·.1) ++ [key]).Nodup := by
      rw [List.nodup_middle, List.append_nil, List.nodup_cons]
      exact hnew
    set tail := writeMembers s level members ++ (s.outer level ++ '\x7d' :: rest) with htail
    have hread {steps : List Char} (hsteps : members.length + 1 < steps.length) :
        fs.readPutAll closed depth steps true (fs.slots [] t)
          (lead true ++ (s.inner level ++ (memberText s level key v ++ tail))) =
            .ok (fs.slots ((members.map (·.1)).reverse ++ [key]) t, rest) := by
      cases steps with
      | nil => contradiction
      | cons c steps =>
        rw [readPutAll_step hs hnodup hrestores hdepth hhead List.not_mem_nil
          (delimits_members hs level members rest)]
        exact readPutAll_write hs hnodup hrestores hdepth hmem hnew' (Nat.lt_of_succ_lt_succ hsteps)
          rest
    refine ⟨s.inner level ++ (memberText s level key v ++ tail), _, ?_, hread ?_, hcomplete ?_⟩
    · simp [htail, memberText, writeString, Value.write]
    · have hmembers := length_le_length_writeMembers s level members
      simp only [htail, memberText, List.length_append, List.length_cons]
      omega
    · intro key' hkey'
      rw [List.mem_append, List.mem_reverse, List.mem_singleton]
      exact (List.mem_cons.1 hkey').symm

end Members

/-! ### Records -/

theorem restores_record {name : String} {closed : Bool} {fs : Fields τ δ} {build : τ → ρ}
    {parts : ρ → τ} {r : ρ} (hnodup : fs.keys.Nodup) (h : fs.Restores n (parts r))
    (hbuild : build (parts r) = r) :
    (Codec.record name closed fs build parts).Restores (n + 1) r := by
  intro depth hdepth s level spaces rest hs hspaces hrest
  cases depth with
  | zero => contradiction
  | succ depth =>
    have hperm : ((sortValues (fs.encode (parts r))).mergeSort fun a b => decide (a.1 ≤ b.1)).Perm
        (sortValues (fs.encode (parts r))) := List.mergeSort_perm _ _
    obtain ⟨body, draft, htext, hread, hcomplete⟩ := exists_write_object closed hs hnodup h
      (Nat.le_of_succ_le_succ hdepth) hperm level rest
    simp only [Codec.record]
    rw [skipSpace_write hspaces, Value.sorted, htext]
    refine Checked.bind_eq_ok_iff.2 ⟨_, hread, ?_⟩
    dsimp only
    rw [hcomplete]
    change Except.ok (build (parts r), rest) = _
    rw [hbuild]

/-! ### Whole texts -/

theorem read_sorted {c : Codec α} {x : α} (h : c.Restores n x) (hn : n ≤ depthLimit)
    (hs : s.Plain) : c.read depthLimit ((c.encode x).sorted.write s 0) = .ok (x, []) := by
  have hread : c.read depthLimit ((c.encode x).sorted.write s 0 ++ []) = .ok (x, []) :=
    read_of_takes (h depthLimit hn) hs delimits_nil
  rwa [List.append_nil] at hread

theorem parse_sorted {c : Codec α} {x : α} (h : c.Restores n x) (hn : n ≤ depthLimit)
    (hs : s.Plain) : c.parse (String.ofList ((c.encode x).sorted.write s 0)) = .ok x := by
  rw [Codec.parse, String.toList_ofList, read_sorted h hn hs]
  rfl

theorem parse_write {c : Codec α} {x : α} (h : c.Restores n x) (hn : n ≤ depthLimit) :
    c.parse (c.write x) = .ok x :=
  parse_sorted h hn plain_compact

theorem parse_writeIndented {c : Codec α} {x : α} (h : c.Restores n x) (hn : n ≤ depthLimit) :
    c.parse (c.writeIndented x) = .ok x :=
  parse_sorted h hn plain_indented

/-- A value in another form is refused if its form is not accepted. -/
theorem parse_write_refused {β : Type} {c : Codec α} {encode : β → α}
    {accept : α → Except String β} {x : β} {reason : String} (h : c.Restores n (encode x))
    (hn : n ≤ depthLimit) (haccept : accept (encode x) = .error reason) :
    (c.refine encode accept).parse ((c.refine encode accept).write x) =
      .error (.mismatch (.refused reason)) := by
  have hread : (c.refine encode accept).read depthLimit
      ((c.encode (encode x)).sorted.write compact 0) = .error (.mismatch (.refused reason)) := by
    simp only [Codec.refine]
    rw [read_sorted h hn plain_compact, Checked.ok_bind]
    dsimp only
    rw [haccept]
  change (c.refine encode accept).parse (String.ofList ((c.encode (encode x)).sorted.write _ _)) = _
  rw [Codec.parse, String.toList_ofList, hread]
  rfl

end SatWalk.Json
