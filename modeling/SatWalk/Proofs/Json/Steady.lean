import SatWalk.Proofs.Json.Restore

/-! Values read from the front of a text. A reader that has found the end of what it reads does not
look at what follows: strings, arrays and objects end with a mark of their own, and any other value
where something follows that may follow a value. So the text of a value means the same by itself and
inside another text. -/

namespace SatWalk.Json

variable {α : Type} {cs left rest : List Char}

/-! ### Marks -/

/-- What is read does not change whatever follows. -/
def Prompt (r : Reader α) : Prop :=
  ∀ {cs x left} rest, r cs = .ok (x, left) → r (cs ++ rest) = .ok (x, left ++ rest)

theorem Prompt.steady {r : Reader α} (h : Prompt r) : Steady r :=
  fun hread _ => h _ hread

theorem Steady.map {β : Type} {r : Reader α} (h : Steady r) (f : α → β) :
    Steady fun cs => r cs >>= fun (x, cs) => .ok (f x, cs) := by
  intro cs y left rest hy hrest
  obtain ⟨⟨x, left'⟩, hx, hy⟩ := Checked.bind_eq_ok_iff.1 hy
  cases hy
  exact Checked.bind_eq_ok_iff.2 ⟨_, h hx hrest, rfl⟩

theorem skipSpace_append_of_cons {c : Char} (h : skipSpace cs = c :: left) (rest : List Char) :
    skipSpace (cs ++ rest) = c :: (left ++ rest) := by
  rw [skipSpace] at h ⊢
  rw [List.dropWhile_append, h]
  rfl

theorem prompt_expect (es : List Char) : Prompt (expect es) := by
  intro cs u left rest h
  induction es generalizing cs with
  | nil =>
    cases h
    rfl
  | cons e es ih =>
    cases cs with
    | nil => cases h
    | cons c cs =>
      rw [List.cons_append]
      rw [expect] at h ⊢
      split_ifs at h ⊢
      exact ih h

theorem prompt_expectMark (mark : Char) : Prompt (expectMark mark) := by
  intro cs u left rest h
  rw [expectMark] at h ⊢
  cases hskip : skipSpace cs with
  | nil =>
    rw [hskip] at h
    cases h
  | cons c cs =>
    rw [hskip] at h
    rw [skipSpace_append_of_cons hskip]
    exact prompt_expect [mark] rest h

theorem nextItem_append {first : Bool} {next : Option (List Char)}
    (h : nextItem first cs = .ok next) (rest : List Char) :
    nextItem first (cs ++ rest) = .ok (next.map (· ++ rest)) := by
  unfold nextItem at h ⊢
  cases hskip : skipSpace cs with
  | nil => simp [hskip] at h
  | cons c tail =>
    rw [hskip] at h
    rw [skipSpace_append_of_cons hskip]
    by_cases hclose : c = ']'
    · subst hclose
      cases h
      rfl
    · cases first with
      | true =>
        simp at h ⊢
        simp [← h]
      | false =>
        by_cases hcomma : c = ','
        · subst hcomma
          cases htail : skipSpace tail with
          | nil => simp [htail] at h
          | cons d ds =>
            by_cases hd : d = ']'
            · simp [htail, hd] at h
            · simp [htail, hd, skipSpace_append_of_cons htail] at h ⊢
              simp [← h]
        · simp [hcomma] at h

theorem nextKey_append {first : Bool} {next : Option (List Char)}
    (h : nextKey first cs = .ok next) (rest : List Char) :
    nextKey first (cs ++ rest) = .ok (next.map (· ++ rest)) := by
  unfold nextKey at h ⊢
  cases hskip : skipSpace cs with
  | nil => simp [hskip] at h
  | cons c tail =>
    rw [hskip] at h
    rw [skipSpace_append_of_cons hskip]
    by_cases hclose : c = '\x7d'
    · subst hclose
      cases h
      rfl
    · cases first with
      | true =>
        by_cases hquote : c = '"'
        · simp [hquote] at h ⊢
          simp [← h]
        · simp [hquote] at h
      | false =>
        by_cases hcomma : c = ','
        · subst hcomma
          cases htail : skipSpace tail with
          | nil => simp [htail] at h
          | cons d ds =>
            by_cases hd : d = '"'
            · simp [htail, hd, skipSpace_append_of_cons htail] at h ⊢
              simp [← h]
            · simp [htail, hd] at h
        · simp [hcomma] at h

/-! ### Strings -/

theorem utf8Size_of_hexValue? {c : Char} {n : ℕ} (h : Text.hexValue? c = some n) :
    c.utf8Size = 1 := by
  have hle : c.val ≤ 127 := by
    unfold Text.hexValue? at h
    split_ifs at h with hdigit hlow hhigh
    · simp only [Char.isDigit, Bool.and_eq_true, decide_eq_true_eq] at hdigit
      exact UInt32.le_trans hdigit.2 (by decide)
    · exact UInt32.le_trans hlow.2 (by decide)
    · exact UInt32.le_trans hhigh.2 (by decide)
  exact Char.utf8Size_eq_one_iff.2 hle

/-- Hexadecimal digits have as many bytes as there are digits. -/
theorem foldl_utf8Size_of_hexValue? {digits : List ℕ} (h : cs.mapM Text.hexValue? = some digits)
    (n : ℕ) : cs.foldl (fun size c => size + c.utf8Size) n = n + cs.length := by
  induction cs generalizing n digits with
  | nil => rfl
  | cons c cs ih =>
    simp only [List.mapM_cons, Option.bind_eq_bind, Option.bind_eq_some_iff] at h
    obtain ⟨d, hd, ds, hds, -⟩ := h
    rw [List.foldl_cons, ih hds, utf8Size_of_hexValue? hd, List.length_cons]
    omega

theorem prompt_readHex4 : Prompt readHex4 := by
  intro cs n left rest h
  unfold readHex4 at h ⊢
  dsimp only at h ⊢
  split_ifs at h with hshort
  cases hdigits : (cs.take 4).mapM Text.hexValue? with
  | none =>
    rw [hdigits] at h
    cases h
  | some digits =>
    rw [hdigits] at h
    cases h
    -- each digit has one byte, so there were four before anything was appended
    rw [foldl_utf8Size_of_hexValue? hdigits, List.length_take] at hshort
    have hlength : 4 ≤ cs.length := by omega
    rw [List.take_append_of_le_length hlength, List.drop_append_of_le_length hlength, hdigits,
      foldl_utf8Size_of_hexValue? hdigits, List.length_take, if_neg (by omega)]

theorem prompt_readCodePoint : Prompt readCodePoint := by
  intro cs c left rest h
  unfold readCodePoint at h ⊢
  obtain ⟨⟨n, cs'⟩, hn, h⟩ := Checked.bind_eq_ok_iff.1 h
  refine Checked.bind_eq_ok_iff.2 ⟨_, prompt_readHex4 rest hn, ?_⟩
  dsimp only at h ⊢
  split_ifs at h ⊢ with hlow hhigh
  · split at h
    · cases h
    · cases h
    · next ds =>
      obtain ⟨⟨m, left'⟩, hm, h⟩ := Checked.bind_eq_ok_iff.1 h
      refine Checked.bind_eq_ok_iff.2 ⟨_, prompt_readHex4 rest hm, ?_⟩
      dsimp only at h ⊢
      split_ifs at h ⊢
      obtain ⟨hc, hleft⟩ := Prod.mk.inj (Except.ok.inj h)
      rw [← hc, ← hleft]
      rfl
    · cases h
  · cases h
    rfl

theorem prompt_readEscape : Prompt readEscape := by
  intro cs c left rest h
  cases cs with
  | nil => cases h
  | cons e cs =>
    rw [List.cons_append]
    by_cases hu : e = 'u'
    · subst hu
      exact prompt_readCodePoint rest h
    · rw [readEscape] at h ⊢
      · cases hescape : simpleEscape? e with
        | none =>
          rw [hescape] at h
          cases h
        | some d =>
          rw [hescape] at h
          cases h
          rfl
      · exact hu
      · exact hu

theorem readStringBody_append {text : String} {steps : List Char} (done : List Char)
    (h : readStringBody steps done cs = .ok (text, left)) (more rest : List Char) :
    readStringBody (steps ++ more) done (cs ++ rest) = .ok (text, left ++ rest) := by
  induction steps generalizing done cs with
  | nil => cases h
  | cons step steps ih =>
    cases cs with
    | nil => cases h
    | cons c cs =>
      rw [List.cons_append, List.cons_append]
      rw [readStringBody] at h ⊢
      split_ifs at h ⊢ with hquote hescape hcontrol
      · cases h
        rfl
      · cases he : readEscape cs with
        | error e =>
          rw [he] at h
          cases h
        | ok found =>
          rw [he] at h
          rw [prompt_readEscape rest he]
          exact ih _ h
      · exact ih _ h

theorem prompt_readString : Prompt readString :=
  fun rest h => readStringBody_append [] h rest rest

/-! ### Arrays and objects -/

section Items

variable {item : Reader α} {value : Reader Value} {steps : List Char} {first : Bool}

theorem readItems_append {done xs : List α} (hitem : Steady item)
    (h : readItems item steps first done cs = .ok (xs, left)) (more : List Char)
    (hrest : Delimits rest) :
    readItems item (steps ++ more) first done (cs ++ rest) = .ok (xs, left ++ rest) := by
  induction steps generalizing first done cs with
  | nil => cases h
  | cons step steps ih =>
    rw [List.cons_append]
    rw [readItems] at h ⊢
    obtain ⟨next, hnext, h⟩ := Checked.bind_eq_ok_iff.1 h
    refine Checked.bind_eq_ok_iff.2 ⟨_, nextItem_append hnext rest, ?_⟩
    cases next with
    | none =>
      obtain ⟨⟨u, cs'⟩, hclose, h⟩ := Checked.bind_eq_ok_iff.1 h
      cases h
      exact Checked.bind_eq_ok_iff.2 ⟨_, prompt_expectMark _ rest hclose, rfl⟩
    | some next =>
      obtain ⟨⟨x, cs'⟩, hx, h⟩ := Checked.bind_eq_ok_iff.1 h
      exact Checked.bind_eq_ok_iff.2 ⟨_, hitem hx hrest, ih h⟩

theorem readMembers_append {done ms : List (String × Value)} (hvalue : Steady value)
    (h : readMembers value steps first done cs = .ok (ms, left)) (more : List Char)
    (hrest : Delimits rest) :
    readMembers value (steps ++ more) first done (cs ++ rest) = .ok (ms, left ++ rest) := by
  induction steps generalizing first done cs with
  | nil => cases h
  | cons step steps ih =>
    rw [List.cons_append]
    rw [readMembers] at h ⊢
    obtain ⟨next, hnext, h⟩ := Checked.bind_eq_ok_iff.1 h
    refine Checked.bind_eq_ok_iff.2 ⟨_, nextKey_append hnext rest, ?_⟩
    cases next with
    | none =>
      obtain ⟨⟨u, cs'⟩, hclose, h⟩ := Checked.bind_eq_ok_iff.1 h
      cases h
      exact Checked.bind_eq_ok_iff.2 ⟨_, prompt_expectMark _ rest hclose, rfl⟩
    | some next =>
      obtain ⟨⟨key, cs₁⟩, hkey, h⟩ := Checked.bind_eq_ok_iff.1 h
      obtain ⟨⟨u, cs₂⟩, hcolon, h⟩ := Checked.bind_eq_ok_iff.1 h
      obtain ⟨⟨v, cs₃⟩, hv, h⟩ := Checked.bind_eq_ok_iff.1 h
      refine Checked.bind_eq_ok_iff.2 ⟨_, prompt_readString rest hkey, ?_⟩
      refine Checked.bind_eq_ok_iff.2 ⟨_, prompt_expectMark _ rest hcolon, ?_⟩
      exact Checked.bind_eq_ok_iff.2 ⟨_, hvalue hv hrest, ih h⟩

end Items

/-! ### Values

A value without a level of arrays and objects is read in one way whatever levels may be nested. -/

section Values

variable {items : Reader (List Value)} {members : Reader (List (String × Value))} {v : Value}

theorem readValueWith_array (h : skipSpace cs = '[' :: left) :
    readValueWith items members cs = items left >>= fun (xs, cs) => .ok (.array xs, cs) := by
  rw [readValueWith, h]
  rfl

theorem readValueWith_object (h : skipSpace cs = '\x7b' :: left) :
    readValueWith items members cs = members left >>= fun (ms, cs) => .ok (.object ms, cs) := by
  rw [readValueWith, h]
  rfl

theorem readValueWith_of_ne (h : ∀ c ∈ (skipSpace cs).head?, c ≠ '[' ∧ c ≠ '\x7b') :
    readValueWith items members cs = readValue 0 cs := by
  rw [readValue, readValueWith, readValueWith]
  cases hskip : skipSpace cs with
  | nil => rfl
  | cons c tail =>
    obtain ⟨harray, hobject⟩ := h c (by rw [hskip]; rfl)
    split
    · rfl
    · rfl
    · rfl
    · rfl
    · rfl
    · next heq => exact absurd (List.cons.inj heq).1 harray
    · next heq => exact absurd (List.cons.inj heq).1 hobject
    · rfl

theorem readValueWith_of_zero (h : readValue 0 cs = .ok (v, left)) :
    readValueWith items members cs = .ok (v, left) := by
  rw [readValueWith_of_ne, h]
  rintro c hc
  obtain ⟨tail, hskip⟩ := List.head?_eq_some_iff.1 hc
  constructor
  · rintro rfl
    rw [readValue, readValueWith_array hskip] at h
    cases h
  · rintro rfl
    rw [readValue, readValueWith_object hskip] at h
    cases h

/-- A value that starts neither an array nor an object. -/
theorem readValue_zero_cases (h : readValue 0 cs = .ok (v, left)) :
    (∃ key tail, v = .string key ∧ skipSpace cs = '"' :: tail ∧ readString tail = .ok (key, left)) ∨
      v = .null ∨ (∃ b, v = .boolean b) ∨ ∃ n, v = .number n := by
  rw [readValue, readValueWith] at h
  split at h
  · cases h
  · obtain ⟨_, -, h⟩ := Checked.bind_eq_ok_iff.1 h
    cases h
    exact .inr (.inl rfl)
  · obtain ⟨_, -, h⟩ := Checked.bind_eq_ok_iff.1 h
    cases h
    exact .inr (.inr (.inl ⟨true, rfl⟩))
  · obtain ⟨_, -, h⟩ := Checked.bind_eq_ok_iff.1 h
    cases h
    exact .inr (.inr (.inl ⟨false, rfl⟩))
  · next tail hskip =>
    obtain ⟨⟨key, left'⟩, hkey, h⟩ := Checked.bind_eq_ok_iff.1 h
    cases h
    exact .inl ⟨key, tail, rfl, hskip, hkey⟩
  · cases h
  · cases h
  · split_ifs at h
    obtain ⟨⟨n, left'⟩, -, h⟩ := Checked.bind_eq_ok_iff.1 h
    cases h
    exact .inr (.inr (.inr ⟨n, rfl⟩))

/-- A value is an array, an object, or read without a level. -/
theorem readValueWith_cases (h : readValueWith items members cs = .ok (v, left)) :
    (∃ xs tail, v = .array xs ∧ skipSpace cs = '[' :: tail ∧ items tail = .ok (xs, left)) ∨
      (∃ ms tail, v = .object ms ∧ skipSpace cs = '\x7b' :: tail ∧
        members tail = .ok (ms, left)) ∨
      readValue 0 cs = .ok (v, left) := by
  by_cases harray : (skipSpace cs).head? = some '['
  · obtain ⟨tail, hskip⟩ := List.head?_eq_some_iff.1 harray
    rw [readValueWith_array hskip] at h
    obtain ⟨⟨xs, left'⟩, hxs, h⟩ := Checked.bind_eq_ok_iff.1 h
    cases h
    exact .inl ⟨xs, tail, rfl, hskip, hxs⟩
  · by_cases hobject : (skipSpace cs).head? = some '\x7b'
    · obtain ⟨tail, hskip⟩ := List.head?_eq_some_iff.1 hobject
      rw [readValueWith_object hskip] at h
      obtain ⟨⟨ms, left'⟩, hms, h⟩ := Checked.bind_eq_ok_iff.1 h
      cases h
      exact .inr (.inl ⟨ms, tail, rfl, hskip, hms⟩)
    · rw [readValueWith_of_ne] at h
      · exact .inr (.inr h)
      · rintro c hc
        rw [Option.mem_def.1 hc] at harray hobject
        exact ⟨fun h => harray (h ▸ rfl), fun h => hobject (h ▸ rfl)⟩

theorem readValue_zero_number {c : Char} (hskip : skipSpace cs = c :: left)
    (hnumber : c = '-' ∨ c.isDigit = true) :
    readValue 0 cs = readNumber (c :: left) >>= fun (n, cs) => .ok (.number n, cs) := by
  rw [readValue, readValueWith, hskip]
  split
  case h_8 heq =>
    cases heq
    exact if_pos hnumber
  all_goals
    next heq =>
      cases heq
      try exact absurd hnumber (by decide)

theorem steady_readValue_zero : Steady (readValue 0) := by
  intro cs v left rest h hrest
  rw [readValue, readValueWith] at h
  cases hskip : skipSpace cs with
  | nil =>
    rw [hskip] at h
    cases h
  | cons c tail =>
    rw [hskip] at h
    have hlong := skipSpace_append_of_cons hskip rest
    split at h
    · next heq => cases heq
    · next heq =>
      cases heq
      rw [readValue, readValueWith, hlong]
      exact Steady.map (Prompt.steady (prompt_expect _)) (fun _ => Value.null) h hrest
    · next heq =>
      cases heq
      rw [readValue, readValueWith, hlong]
      exact Steady.map (Prompt.steady (prompt_expect _)) (fun _ => Value.boolean true) h hrest
    · next heq =>
      cases heq
      rw [readValue, readValueWith, hlong]
      exact Steady.map (Prompt.steady (prompt_expect _)) (fun _ => Value.boolean false) h hrest
    · next heq =>
      cases heq
      rw [readValue, readValueWith, hlong]
      exact Steady.map (Prompt.steady prompt_readString) Value.string h hrest
    · cases h
    · cases h
    · next heq =>
      obtain ⟨rfl, rfl⟩ := List.cons.inj heq
      split_ifs at h with hnumber
      rw [readValue_zero_number hlong hnumber]
      exact Steady.map steady_readNumber Value.number h hrest

theorem steady_readValueWith (hitems : Steady items) (hmembers : Steady members) :
    Steady (readValueWith items members) := by
  intro cs v left rest h hrest
  rcases readValueWith_cases h with ⟨xs, tail, rfl, hskip, hxs⟩ | ⟨ms, tail, rfl, hskip, hms⟩ | h
  · rw [readValueWith_array (skipSpace_append_of_cons hskip rest), hitems hxs hrest]
    rfl
  · rw [readValueWith_object (skipSpace_append_of_cons hskip rest), hmembers hms hrest]
    rfl
  · exact readValueWith_of_zero (steady_readValue_zero h hrest)

theorem readValue_of_zero (depth : ℕ) (h : readValue 0 cs = .ok (v, left)) :
    readValue depth cs = .ok (v, left) := by
  cases depth with
  | zero => exact h
  | succ depth => exact readValueWith_of_zero h

/-- A value is read the same whether the text goes on or not. -/
theorem steady_readValue (depth : ℕ) : Steady (readValue depth) := by
  induction depth with
  | zero => exact steady_readValue_zero
  | succ depth ih =>
    apply steady_readValueWith
    · intro cs xs left rest h hrest
      exact readItems_append ih h rest hrest
    · intro cs ms left rest h hrest
      exact readMembers_append ih h rest hrest

theorem readValue_cases {depth : ℕ} (h : readValue depth cs = .ok (v, left)) :
    (∃ inner xs tail, v = .array xs ∧ skipSpace cs = '[' :: tail ∧
        readItems (readValue inner) tail true [] tail = .ok (xs, left)) ∨
      (∃ ms, v = .object ms) ∨ readValue 0 cs = .ok (v, left) := by
  cases depth with
  | zero => exact .inr (.inr h)
  | succ depth =>
    rcases readValueWith_cases h with ⟨xs, tail, hv, hskip, hxs⟩ | ⟨ms, _, hv, -⟩ | h
    · exact .inl ⟨depth, xs, tail, hv, hskip, hxs⟩
    · exact .inr (.inl ⟨ms, hv⟩)
    · exact .inr (.inr h)

theorem readString_of_readValue {depth : ℕ} {key : String}
    (h : readValue depth cs = .ok (.string key, left)) :
    ∃ tail, skipSpace cs = '"' :: tail ∧ readString tail = .ok (key, left) := by
  rcases readValue_cases h with ⟨_, _, _, hv, -⟩ | ⟨_, hv⟩ | h
  · cases hv
  · cases hv
  · rcases readValue_zero_cases h with ⟨key', tail, hv, hskip, hkey⟩ | hv | ⟨_, hv⟩ | ⟨_, hv⟩
    · cases hv
      exact ⟨tail, hskip, hkey⟩
    all_goals cases hv

theorem readItems_of_readValue {depth : ℕ} {xs : List Value}
    (h : readValue depth cs = .ok (.array xs, left)) :
    ∃ inner tail, skipSpace cs = '[' :: tail ∧
      readItems (readValue inner) tail true [] tail = .ok (xs, left) := by
  rcases readValue_cases h with ⟨inner, xs', tail, hv, hskip, hxs⟩ | ⟨_, hv⟩ | h
  · cases hv
    exact ⟨inner, tail, hskip, hxs⟩
  · cases hv
  · rcases readValue_zero_cases h with ⟨_, _, hv, -⟩ | hv | ⟨_, hv⟩ | ⟨_, hv⟩ <;> cases hv

end Values

/-! ### Texts of values -/

/-- The text is one of the value, with spaces around it, however deep the value is nested. -/
def Spells (cs : List Char) (v : Value) : Prop :=
  ∃ depth left, readValue depth cs = .ok (v, left) ∧ skipSpace left = []

/-- The text is one of an object with a single member. -/
def SpellsMember (cs : List Char) (key : String) (v : Value) : Prop :=
  ∃ before k x after, cs = before ++ '\x7b' :: (k ++ ':' :: (x ++ '\x7d' :: after)) ∧
    skipSpace before = [] ∧ skipSpace after = [] ∧ Spells k (.string key) ∧ Spells x v

theorem isSpace_of_skipSpace_eq_nil (h : skipSpace cs = []) : ∀ c ∈ cs, isSpace c = true :=
  List.dropWhile_eq_nil_iff.1 h

theorem nextKey_closing (h : skipSpace left = []) (first : Bool) (rest : List Char) :
    nextKey first (left ++ '\x7d' :: rest) = .ok none := by
  unfold nextKey
  rw [skipSpace_append (isSpace_of_skipSpace_eq_nil h)]
  rfl

/-- What a reader of objects meets in a text of an object with a single member: the key, the colon
and the value, and then only the closing brace. -/
theorem SpellsMember.exists_parts {key : String} {v : Value} (h : SpellsMember cs key v) :
    ∃ body start colon item left after depth,
      skipSpace cs = '\x7b' :: body ∧ 2 ≤ body.length ∧
      nextKey true body = .ok (some start) ∧ readString start = .ok (key, colon) ∧
      expectMark ':' colon = .ok ((), item) ∧
      readValue depth item = .ok (v, left ++ '\x7d' :: after) ∧
      skipSpace left = [] ∧ skipSpace after = [] := by
  obtain ⟨before, k, x, after, rfl, hbefore, hafter, ⟨_, space, hk, hspace⟩, hx⟩ := h
  obtain ⟨depth, left, hx, hleft⟩ := hx
  obtain ⟨tail, hskip, hkey⟩ := readString_of_readValue hk
  have hclose : Delimits ('\x7d' :: after) := delimits_cons (by simp)
  refine ⟨k ++ ':' :: (x ++ '\x7d' :: after), tail ++ ':' :: (x ++ '\x7d' :: after),
    space ++ ':' :: (x ++ '\x7d' :: after), x ++ '\x7d' :: after, left, after, depth,
    ?_, ?_, ?_, prompt_readString _ hkey, ?_, steady_readValue depth hx hclose, hleft, hafter⟩
  · rw [skipSpace_append (isSpace_of_skipSpace_eq_nil hbefore)]
    rfl
  · simp only [List.length_append, List.length_cons]
    omega
  · unfold nextKey
    rw [skipSpace_append_of_cons hskip]
    rfl
  · exact expectMark_append (isSpace_of_skipSpace_eq_nil hspace) rfl _

theorem mergeMembers_singleton (key : String) (v : Value) :
    mergeMembers [(key, v)] = [(key, v)] := by
  simp [mergeMembers, firstMembers]

/-- A text of an object with a single member is one of the object. -/
theorem SpellsMember.spells {key : String} {v : Value} (h : SpellsMember cs key v) :
    Spells cs (.object [(key, v)]) := by
  obtain ⟨body, start, colon, item, left, after, depth, hskip, hlength, hstart, hkey, hcolon, hv,
    hleft, hafter⟩ := h.exists_parts
  have hmembers {steps : List Char} (hsteps : 2 ≤ steps.length) :
      readMembers (readValue depth) steps true [] body = .ok ([(key, v)], after) := by
    match steps, hsteps with
    | _ :: _ :: _, _ =>
      rw [readMembers, hstart, Checked.ok_bind]
      dsimp only
      rw [hkey, Checked.ok_bind]
      dsimp only
      rw [hcolon, Checked.ok_bind]
      dsimp only
      rw [hv, Checked.ok_bind]
      dsimp only
      rw [readMembers, nextKey_closing hleft, Checked.ok_bind]
      dsimp only
      rw [expectMark_append (isSpace_of_skipSpace_eq_nil hleft) rfl, Checked.ok_bind]
      dsimp only
      rw [List.reverse_singleton, mergeMembers_singleton]
      rfl
  refine ⟨depth + 1, after, ?_, hafter⟩
  rw [readValue, readValueWith_object hskip]
  dsimp only
  rw [hmembers hlength, Checked.ok_bind]

end SatWalk.Json
