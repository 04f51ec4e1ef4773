import SatWalk.Proofs.Json.Decoding
import SatWalk.Proofs.Search.Outcome

/-! Settings from members. Which members are settings is said of each member by itself, and what
they set of each setting by itself, so their order does not matter. A challenge with such members is
the search with what they set, and the defaults elsewhere; any other members are refused. -/

namespace SatWalk

open Json

namespace Search

variable {ω σ : Type} {t : Problem ω} [Source σ]

/-- A run that ends with a solution gives it. -/
theorem assignment_of_run {budget : ℕ} {s s' : Search ω σ} {r : RunResult}
    (h : run t budget s = .ok (r, s')) (ho : r.outcome = .satisfied) :
    ∃ a, r.assignment = some a := by
  induction budget generalizing s with
  | zero =>
    cases h
    exact ⟨s.assignment, if_pos ho⟩
  | succ budget ih =>
    rw [run, Checked.bind_eq_ok_iff] at h
    obtain ⟨⟨_ | outcome, s₁⟩, -, h⟩ := h
    · exact ih h
    · cases h
      exact ⟨s'.assignment, if_pos ho⟩

theorem assignment_of_solve {f : Formula} {c : Config} {source : σ} {r : RunResult}
    (h : SatWalk.solve f c source = (.ok (.ok r) : Checked _)) (ho : r.outcome = .satisfied) :
    ∃ a, r.assignment = some a := by
  rw [solve_eq_solved] at h
  rcases hlaunch : launch (ofKind f c c.tracker) none source with fault | e | s
  · rw [solved, hlaunch] at h
    cases h
  · rw [solved, hlaunch] at h
    cases h
  · rw [solved_of_launch none hlaunch] at h
    obtain ⟨⟨r', s'⟩, hrun, hr⟩ := Checked.bind_eq_ok_iff.1 h
    cases hr
    exact assignment_of_run hrun ho

end Search

/-- The value names the kind, by its name alone or as the only key of an object, over null. -/
def TrackerKind.NamedBy (v : Value) (k : TrackerKind) : Prop :=
  v = .string k.name ∨ v = .object [(k.name, .null)]

namespace Challenge

variable {members : List (String × Value)} {c : Config} {seed : ℕ}

/-! ### What members may be -/

/-- The value is a whole number that fits 64 bits. -/
def IsCount (v : Value) (n : ℕ) : Prop :=
  n < Text.countBound ∧ v = .number (.whole n)

/-- A setting with a value of its kind. -/
@[mk_iff]
inductive Accepted : String × Value → Prop
  | seed {v : Value} {n : ℕ} (h : IsCount v n) : Accepted ("seed", v)
  | p (n : Number) : Accepted ("p", .number n)
  | maxFlips {v : Value} {n : ℕ} (h : IsCount v n) : Accepted ("max_flips", v)
  | restartFrequency {v : Value} {n : ℕ} (h : IsCount v n) : Accepted ("restart_frequency", v)
  | restarts (b : Bool) : Accepted ("restarts", .boolean b)
  | adaptiveP (b : Bool) : Accepted ("adaptive_p", .boolean b)
  | oracle {v : Value} {k : TrackerKind} (h : k.NamedBy v) : Accepted ("oracle", v)

/-- The names of the settings of a search. -/
def settingNames : List String :=
  ["p", "max_flips", "restart_frequency", "restarts", "adaptive_p", "oracle"]

/-- The settings and the seed are what the members give, and the defaults elsewhere. -/
structure Describe (members : List (String × Value)) (c : Config) (seed : ℕ) : Prop where
  known : ∀ m ∈ members, m.1 = "seed" ∨ m.1 ∈ settingNames
  seed : Gives members "seed" 0 IsCount seed
  p : Gives members "p" 0.5 (fun v x => ∃ n, v = .number n ∧ x = n.toFloat) c.p
  maxFlips : Gives members "max_flips" 10000 IsCount c.maxFlips
  restartFrequency : Gives members "restart_frequency" 1000 IsCount c.restartFrequency
  restarts : Gives members "restarts" true (fun v b => v = .boolean b) c.restarts
  adaptiveP : Gives members "adaptive_p" false (fun v b => v = .boolean b) c.adaptiveP
  tracker : Gives members "oracle" .incremental (fun v k => k.NamedBy v) c.tracker

/-! ### Single values -/

theorem not_isCount_real {x : Float} {h : x.isFinite = true} {n : ℕ} :
    ¬ IsCount (.number (.real x h)) n := by
  rintro ⟨-, h⟩
  cases h

theorem isCount_whole_iff {ε : Type} {z : ℤ} {n : ℕ} (e : ε) :
    (if 0 ≤ z ∧ z < Text.countBound then Except.ok z.toNat else .error e) = .ok n ↔
      IsCount (.number (.whole z)) n := by
  simp only [IsCount, Value.number.injEq, Number.whole.injEq]
  split_ifs with h
  · simp only [Except.ok.injEq]
    omega
  · simp only [false_iff]
    omega

theorem seedOf_eq_ok_iff {v : Value} {n : ℕ} : seedOf v = .ok n ↔ IsCount v n := by
  unfold seedOf
  split
  case h_1 z => exact isCount_whole_iff _
  case h_2 v hv =>
    refine iff_of_false nofun ?_
    rintro ⟨-, rfl⟩
    exact hv n rfl

theorem count_decode_eq_ok_iff {name : String} {v : Value} {n : ℕ} :
    (Codec.count name).decode v = .ok n ↔ IsCount v n := by
  cases v with
  | number m =>
    cases m with
    | whole z => exact isCount_whole_iff _
    | real x h => exact iff_of_false nofun not_isCount_real
  | _ => simp [Codec.count, Codec.ofNumber, IsCount]

theorem float_decode_eq_ok_iff {v : Value} {x : Float} :
    Codec.float.decode v = .ok x ↔ ∃ n, v = .number n ∧ x = n.toFloat := by
  cases v with
  | number n =>
    constructor
    · rintro ⟨⟩
      exact ⟨n, rfl, rfl⟩
    · rintro ⟨_, ⟨⟩, rfl⟩
      rfl
  | _ => simp [Codec.float, Codec.ofNumber]

theorem boolean_decode_eq_ok_iff {v : Value} {b : Bool} :
    Codec.boolean.decode v = .ok b ↔ v = .boolean b := by
  cases v <;> simp [Codec.boolean]

theorem chosen_eq_ok_iff {name : String} {k : TrackerKind} :
    chosen TrackerKind.all name = .ok k ↔ name = k.name := by
  by_cases hscan : name = "scan"
  · subst hscan
    cases k <;> simp [chosen, TrackerKind.all, TrackerKind.name]
  · by_cases hincremental : name = "incremental"
    · subst hincremental
      cases k <;> simp [chosen, TrackerKind.all, TrackerKind.name]
    · cases k <;> simp [chosen, TrackerKind.all, TrackerKind.name, hscan, hincremental,
        Ne.symm hscan, Ne.symm hincremental]

theorem trackerKind_decode_eq_ok_iff {v : Value} {k : TrackerKind} :
    TrackerKind.codec.decode v = .ok k ↔ k.NamedBy v := by
  unfold TrackerKind.codec Codec.choice TrackerKind.NamedBy
  dsimp only
  split
  case h_1 name => simp [chosen_eq_ok_iff]
  case h_2 name v =>
    rw [Checked.bind_eq_ok_iff]
    simp only [chosen_eq_ok_iff]
    cases v <;> simp
  case h_3 members hmembers =>
    refine iff_of_false nofun ?_
    intro hv
    rcases hv with hv | hv
    · cases hv
    · exact hmembers _ _ (Value.object.inj hv)
  case h_4 v hstring hobject hobjects =>
    refine iff_of_false nofun ?_
    rintro (rfl | rfl)
    · exact hstring _ rfl
    · exact hobject _ _ rfl

/-! ### All members -/

theorem config_decode_eq_ok_iff (hkeys : (members.map (·.1)).Nodup) :
    Config.codec.decode (.object members) = .ok c ↔
      (∀ m ∈ members, m.1 ∈ settingNames) ∧
      Gives members "p" 0.5 (fun v x => ∃ n, v = .number n ∧ x = n.toFloat) c.p ∧
      Gives members "max_flips" 10000 IsCount c.maxFlips ∧
      Gives members "restart_frequency" 1000 IsCount c.restartFrequency ∧
      Gives members "restarts" true (fun v b => v = .boolean b) c.restarts ∧
      Gives members "adaptive_p" false (fun v b => v = .boolean b) c.adaptiveP ∧
      Gives members "oracle" .incremental (fun v k => k.NamedBy v) c.tracker := by
  unfold Config.codec
  rw [decode_object_eq_ok_iff (by decide) hkeys]
  simp only [← Field.given_orElse_iff hkeys @float_decode_eq_ok_iff,
    ← Field.given_orElse_iff hkeys (@count_decode_eq_ok_iff "usize"),
    ← Field.given_orElse_iff hkeys @boolean_decode_eq_ok_iff,
    ← Field.given_orElse_iff hkeys @trackerKind_decode_eq_ok_iff]
  constructor
  · rintro ⟨hknown, t, ⟨hp, hmax, hfrequency, hrestarts, hadaptive, htracker, -⟩, rfl⟩
    exact ⟨hknown trivial, hp, hmax, hfrequency, hrestarts, hadaptive, htracker⟩
  · rintro ⟨hknown, hp, hmax, hfrequency, hrestarts, hadaptive, htracker⟩
    exact ⟨fun _ => hknown,
      (c.p, c.maxFlips, c.restartFrequency, c.restarts, c.adaptiveP, c.tracker, ()),
      ⟨hp, hmax, hfrequency, hrestarts, hadaptive, htracker, trivial⟩, rfl⟩

/-- The seed that the members give. -/
def seedIn (members : List (String × Value)) : Except Error ℕ :=
  match findMember? "seed" members with
  | some v => seedOf v
  | none => .ok 0

theorem settings_eq (members : List (String × Value)) :
    settings members = seedIn members >>= fun seed =>
      match Config.codec.decode (.object (takeMember "seed" members).2) with
      | .ok c => .ok (c, seed)
      | .error e => .error (.badSettings e) := by
  unfold settings seedIn
  rw [← (takeMember_spec "seed" members).1]
  rcases takeMember "seed" members with ⟨_ | v, rest⟩ <;> rfl

theorem seedIn_eq_ok_iff (hkeys : (members.map (·.1)).Nodup) :
    seedIn members = .ok seed ↔ Gives members "seed" 0 IsCount seed := by
  rw [gives_iff hkeys, seedIn]
  cases findMember? "seed" members with
  | none => simp [eq_comm]
  | some v => exact seedOf_eq_ok_iff

/-- The members give settings and a seed just if they describe them. -/
theorem settings_eq_ok_iff (hkeys : (members.map (·.1)).Nodup) :
    settings members = .ok (c, seed) ↔ Describe members c seed := by
  have hparts : settings members = .ok (c, seed) ↔ seedIn members = .ok seed ∧
      Config.codec.decode (.object (takeMember "seed" members).2) = .ok c := by
    rw [settings_eq]
    cases seedIn members with
    | error e => simp
    | ok n =>
      cases Config.codec.decode (.object (takeMember "seed" members).2) with
      | error e => simp
      | ok c' => simp [and_comm]
  rw [hparts, seedIn_eq_ok_iff hkeys, config_decode_eq_ok_iff (nodup_keys_takeMember hkeys "seed")]
  simp (disch := decide) only [gives_takeMember_iff hkeys, mem_takeMember_iff hkeys]
  constructor
  · rintro ⟨hseed, hknown, hp, hmax, hfrequency, hrestarts, hadaptive, htracker⟩
    refine ⟨fun m hm => ?_, hseed, hp, hmax, hfrequency, hrestarts, hadaptive, htracker⟩
    exact or_iff_not_imp_left.2 fun hne => hknown m ⟨hm, hne⟩
  · rintro ⟨hknown, hseed, hp, hmax, hfrequency, hrestarts, hadaptive, htracker⟩
    exact ⟨hseed, fun m hm => (hknown m hm.1).resolve_left hm.2, hp, hmax, hfrequency, hrestarts,
      hadaptive, htracker⟩

/-! ### Which members are settings -/

theorem Describe.accepted (h : Describe members c seed) : ∀ m ∈ members, Accepted m := by
  rintro ⟨key, v⟩ hm
  rcases h.known _ hm with hkey | hkey
  · obtain rfl : key = "seed" := hkey
    exact .seed (h.seed.1 v hm)
  · simp only [settingNames, List.mem_cons, List.not_mem_nil, or_false] at hkey
    rcases hkey with rfl | rfl | rfl | rfl | rfl | rfl
    · obtain ⟨n, rfl, -⟩ := h.p.1 v hm
      exact .p n
    · exact .maxFlips (h.maxFlips.1 v hm)
    · exact .restartFrequency (h.restartFrequency.1 v hm)
    · rw [h.restarts.1 v hm]
      exact .restarts _
    · rw [h.adaptiveP.1 v hm]
      exact .adaptiveP _
    · exact .oracle (h.tracker.1 v hm)

theorem exists_gives {α : Type} (hkeys : (members.map (·.1)).Nodup) (key : String) (default : α)
    {reads : Value → α → Prop} (h : ∀ v, (key, v) ∈ members → ∃ x, reads v x) :
    ∃ x, Gives members key default reads x := by
  simp only [gives_iff hkeys]
  cases hfind : findMember? key members with
  | none => exact ⟨default, rfl⟩
  | some v => exact h v ((findMember?_eq_some_iff hkeys).1 hfind)

theorem Accepted.known {m : String × Value} (h : Accepted m) :
    m.1 = "seed" ∨ m.1 ∈ settingNames := by
  cases h <;> simp [settingNames]

theorem exists_describe (hkeys : (members.map (·.1)).Nodup) (h : ∀ m ∈ members, Accepted m) :
    ∃ c seed, Describe members c seed := by
  have hvalue {key : String} {v : Value} (hv : (key, v) ∈ members) := (accepted_iff _).1 (h _ hv)
  have hp (v : Value) (hv : ("p", v) ∈ members) :
      ∃ x, ∃ n : Number, v = .number n ∧ x = n.toFloat := by
    obtain ⟨n, rfl⟩ : ∃ n, v = .number n := by simpa using hvalue hv
    exact ⟨n.toFloat, n, rfl, rfl⟩
  have hrestarts (v : Value) (hv : ("restarts", v) ∈ members) : ∃ b, v = .boolean b := by
    simpa using hvalue hv
  have hadaptive (v : Value) (hv : ("adaptive_p", v) ∈ members) : ∃ b, v = .boolean b := by
    simpa using hvalue hv
  have htracker (v : Value) (hv : ("oracle", v) ∈ members) : ∃ k, TrackerKind.NamedBy v k := by
    simpa using hvalue hv
  have hseed (v : Value) (hv : ("seed", v) ∈ members) : ∃ n, IsCount v n := by
    simpa using hvalue hv
  have hmax (v : Value) (hv : ("max_flips", v) ∈ members) : ∃ n, IsCount v n := by
    simpa using hvalue hv
  have hfrequency (v : Value) (hv : ("restart_frequency", v) ∈ members) : ∃ n, IsCount v n := by
    simpa using hvalue hv
  obtain ⟨seed, hseed⟩ := exists_gives hkeys "seed" 0 hseed
  obtain ⟨p, hp⟩ := exists_gives hkeys "p" 0.5 hp
  obtain ⟨maxFlips, hmax⟩ := exists_gives hkeys "max_flips" 10000 hmax
  obtain ⟨frequency, hfrequency⟩ := exists_gives hkeys "restart_frequency" 1000 hfrequency
  obtain ⟨restarts, hrestarts⟩ := exists_gives hkeys "restarts" true hrestarts
  obtain ⟨adaptive, hadaptive⟩ := exists_gives hkeys "adaptive_p" false hadaptive
  obtain ⟨tracker, htracker⟩ := exists_gives hkeys "oracle" .incremental htracker
  exact ⟨⟨p, maxFlips, frequency, restarts, adaptive, tracker⟩, seed, fun m hm => (h m hm).known,
    hseed, hp, hmax, hfrequency, hrestarts, hadaptive, htracker⟩

/-! ### The order of the members -/

theorem Describe.perm {members' : List (String × Value)} (hperm : members.Perm members')
    (h : Describe members c seed) : Describe members' c seed where
  known m hm := h.known m (hperm.mem_iff.2 hm)
  seed := (gives_congr hperm).1 h.seed
  p := (gives_congr hperm).1 h.p
  maxFlips := (gives_congr hperm).1 h.maxFlips
  restartFrequency := (gives_congr hperm).1 h.restartFrequency
  restarts := (gives_congr hperm).1 h.restarts
  adaptiveP := (gives_congr hperm).1 h.adaptiveP
  tracker := (gives_congr hperm).1 h.tracker

/-! ### Answers -/

variable {f : Formula}

/-- What a challenge answers to the end of its search: the solution if one was found, none if all
flips were spent, and an error otherwise. -/
inductive Answers : Checked (Except Config.Error RunResult) →
    Checked (Except Error (Option Assignment)) → Prop
  | solved {r : RunResult} {a : Assignment} (ho : r.outcome = .satisfied)
    (ha : r.assignment = some a) : Answers (.ok (.ok r)) (.ok (.ok (some a)))
  | exhausted {r : RunResult} (ho : r.outcome = .exhausted) :
    Answers (.ok (.ok r)) (.ok (.ok none))
  | inconsistent {r : RunResult} (ho : r.outcome = .inconsistent) :
    Answers (.ok (.ok r)) (.ok (.error (.inconsistent r.flips)))
  | refused (e : Config.Error) : Answers (.ok (.error e)) (.ok (.error (.config e)))
  | fault (e : Fault) : Answers (.error e) (.error e)

theorem answers_of_solve (f : Formula) (c : Config) (source : ChaCha) :
    Answers (SatWalk.solve f c source).run (answer <$> (SatWalk.solve f c source).run) := by
  rcases hsolve : (SatWalk.solve f c source).run with fault | e | r
  · exact .fault fault
  · exact .refused e
  · change Answers (.ok (.ok r)) (.ok (answer (.ok r)))
    cases ho : r.outcome with
    | satisfied =>
      obtain ⟨a, ha⟩ := Search.assignment_of_solve hsolve ho
      have hanswer : answer (.ok r) = .ok (some a) := by
        simp only [answer, ho, ha]
      rw [hanswer]
      exact .solved ho ha
    | exhausted =>
      have hanswer : answer (.ok r) = .ok none := by
        simp only [answer, ho]
      rw [hanswer]
      exact .exhausted ho
    | inconsistent =>
      have hanswer : answer (.ok r) = .error (.inconsistent r.flips) := by
        simp only [answer, ho]
      rw [hanswer]
      exact .inconsistent ho

/-- The members are refused before the search. -/
def Error.OfMembers : Error → Prop
  | .badSeed _ => True
  | .badSettings _ => True
  | _ => False

theorem settings_error_ofMembers {e : Error} (h : settings members = .error e) : e.OfMembers := by
  rw [settings_eq, Checked.bind_eq_error_iff] at h
  rcases h with h | ⟨seed, -, h⟩
  · unfold seedIn seedOf at h
    split at h
    · split at h
      · split_ifs at h
        cases h
        trivial
      · cases h
        trivial
    · cases h
  · split at h <;> cases h
    trivial

theorem solve_of_describe (f : Formula) (hkeys : (members.map (·.1)).Nodup)
    (h : Describe members c seed) : solve f (some members) =
      answer <$> (SatWalk.solve f c (ChaCha.ofSeed (.ofNat seed))).run :=
  solve_of_settings ((settings_eq_ok_iff hkeys).2 h)

/-- What is refused for its members is refused before the search. -/
theorem solve_of_not_accepted (f : Formula) (hkeys : (members.map (·.1)).Nodup)
    (h : ¬ ∀ m ∈ members, Accepted m) :
    ∃ e : Error, e.OfMembers ∧ solve f (some members) = (.ok (.error e) : Checked _) := by
  cases hsettings : settings members with
  | ok x => exact absurd ((settings_eq_ok_iff hkeys).1 hsettings).accepted h
  | error e => exact ⟨e, settings_error_ofMembers hsettings, solve_of_settings_error hsettings⟩

theorem Answers.not_ofMembers {x : Checked (Except Config.Error RunResult)} {e : Error}
    (h : Answers x (.ok (.error e))) : ¬ e.OfMembers := by
  cases h <;> exact id

/-- Members are refused just if one of them is no setting with a value of its kind. Other members say
what the settings are, each by itself, and the challenge answers the search with these settings.
In another order they are refused as well or have the same answer. -/
theorem settings_exact (f : Formula) (hkeys : (members.map (·.1)).Nodup) :
    ((∃ e : Error, e.OfMembers ∧ solve f (some members) = (.ok (.error e) : Checked _)) ↔
      ¬ ∀ m ∈ members, Accepted m) ∧
    ((∀ m ∈ members, Accepted m) → ∃ c seed, Describe members c seed) ∧
    (∀ c seed, Describe members c seed →
      Answers (SatWalk.solve f c (ChaCha.ofSeed (.ofNat seed))).run (solve f (some members)).run) ∧
    ∀ members', members.Perm members' →
      solve f (some members) = solve f (some members') ∨
      ∃ e e' : Error, e.OfMembers ∧ e'.OfMembers ∧
        solve f (some members) = (.ok (.error e) : Checked _) ∧
        solve f (some members') = (.ok (.error e') : Checked _) := by
  have hanswers (c : Config) (seed : ℕ) (h : Describe members c seed) :
      Answers (SatWalk.solve f c (ChaCha.ofSeed (.ofNat seed))).run
        (solve f (some members)).run := by
    rw [solve_of_describe f hkeys h]
    exact answers_of_solve f c _
  refine ⟨⟨?_, solve_of_not_accepted f hkeys⟩, exists_describe hkeys, hanswers, ?_⟩
  · rintro ⟨e, he, hsolve⟩ haccepted
    obtain ⟨c, seed, h⟩ := exists_describe hkeys haccepted
    have hanswer := hanswers c seed h
    rw [hsolve] at hanswer
    exact hanswer.not_ofMembers he
  · intro members' hperm
    have hkeys' : (members'.map (·.1)).Nodup := (hperm.map _).nodup_iff.1 hkeys
    by_cases haccepted : ∀ m ∈ members, Accepted m
    · obtain ⟨c, seed, h⟩ := exists_describe hkeys haccepted
      left
      rw [solve_of_describe f hkeys h, solve_of_describe f hkeys' (h.perm hperm)]
    · have haccepted' : ¬ ∀ m ∈ members', Accepted m :=
        fun h => haccepted fun m hm => h m (hperm.mem_iff.1 hm)
      obtain ⟨e, he, hsolve⟩ := solve_of_not_accepted f hkeys haccepted
      obtain ⟨e', he', hsolve'⟩ := solve_of_not_accepted f hkeys' haccepted'
      exact .inr ⟨e, e', he, he', hsolve, hsolve'⟩

/-- A tracker under its name in an object, a whole number for the probability, and the seed between
them. -/
theorem settings_exact_mixed :
    Describe [("oracle", .object [("scan", .null)]), ("seed", .ofInt 7), ("p", .ofInt 1)]
        { p := .ofInt 1, tracker := .scan } 7 ∧
      Answers (SatWalk.solve ⟨1, #[[1]]⟩ { p := .ofInt 1, tracker := .scan }
          (ChaCha.ofSeed (.ofNat 7))).run
        (solve ⟨1, #[[1]]⟩ (some [("oracle", .object [("scan", .null)]), ("seed", .ofInt 7),
          ("p", .ofInt 1)])).run ∧
      (∃ e : Error, e.OfMembers ∧
        solve ⟨1, #[[1]]⟩ (some [("seed", .ofInt (-1))]) = (.ok (.error e) : Checked _)) := by
  have hdescribe : Describe
      [("oracle", .object [("scan", .null)]), ("seed", .ofInt 7), ("p", .ofInt 1)]
      { p := .ofInt 1, tracker := .scan } 7 := by
    constructor
    case known => simp [settingNames]
    all_goals simp [Gives, IsCount, Value.ofInt, Text.countBound, Number.toFloat,
      TrackerKind.NamedBy, TrackerKind.name]
  refine ⟨hdescribe, (settings_exact _ (by decide)).2.2.1 _ _ hdescribe, ?_⟩
  refine (settings_exact _ (by decide)).1.2 fun h => ?_
  have hseed := h _ List.mem_cons_self
  simp [accepted_iff, IsCount, Value.ofInt] at hseed

end Challenge

end SatWalk
