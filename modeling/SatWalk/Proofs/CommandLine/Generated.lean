import SatWalk.CommandLine.Commands
import SatWalk.Proofs.Dimacs.Preamble
import SatWalk.Proofs.Files.Disk
import SatWalk.Proofs.Files.World
import SatWalk.Proofs.Formula.Generation
import SatWalk.Proofs.Formula.SavedModel

/-! Files of generated formulas. The comment at the start of such a file holds the seed as it is, so
what the file says depends on the seed's lines. Wherever the formula is read back, its saved
model is accepted as a solution. -/

namespace SatWalk.CommandLine

open Dimacs (Ends Line linesOf)
open World (run_bind run_bind_eq_ok_iff run_lift)

/-! ### The comment -/

/-- The text before the formula. -/
def comment (seed : String) (planted : Bool) : String :=
  "c generated by hsat, seed '" ++ seed ++ "'" ++ (if planted then ", planted" else "")

theorem generatedText_eq (seed : String) (f : Formula) (planted : Bool) :
    generatedText seed f planted = comment seed planted ++ "\n" ++ Dimacs.write f :=
  rfl

theorem toList_comment (seed : String) (planted : Bool) : (comment seed planted).toList =
    "c generated by hsat, seed '".toList ++ seed.toList ++ "'".toList ++
      (if planted then ", planted" else "").toList := by
  unfold comment
  rw [String.toList_append, String.toList_append, String.toList_append]

/-- A seed of one line stays in the comment. -/
theorem linesOf_comment {seed : String} (h : '\n' ∉ seed.toList) (planted : Bool) :
    ∃ l, linesOf (comment seed planted).toList = [l] ∧ l.first? = some 'c' := by
  have hline : '\n' ∉ (comment seed planted).toList := by
    simp only [toList_comment, List.mem_append, not_or]
    exact ⟨⟨⟨by decide, h⟩, by decide⟩, by cases planted <;> decide⟩
  refine ⟨⟨(comment seed planted).toList, 1⟩, ?_, ?_⟩
  · rw [linesOf, List.splitOn_eq_singleton hline]
    rfl
  · rw [Line.first?, toList_comment]
    rfl

/-! ### Verifying -/

/-- The text is what an argument stands for: the input, what a file holds, or the argument. -/
def Supplies (w : World) (argument text : String) : Prop :=
  if argument = "-" then w.input = Text.toBytes text
  else if ".json".toList.isSuffixOf argument.toList then
    w.disk.readFile argument = .ok (Text.toBytes text)
  else argument = text

variable {programs : String → Option Program} {w : World}

theorem readJsonArgument_eq {what argument text : String} (h : Supplies w argument text) :
    (readJsonArgument (World.host programs) what argument).run.run w = (.ok text, w) := by
  unfold Supplies at h
  unfold readJsonArgument
  split_ifs at h ⊢
  · refine (run_bind w.input rfl _).trans ?_
    rw [h, Text.ofBytes?_toBytes]
    rfl
  · refine (run_bind (w.disk.readFile argument) rfl _).trans ?_
    rw [h]
    dsimp only
    rw [Text.ofBytes?_toBytes]
    rfl
  · subst h
    rfl

theorem parseArgument_eq {α : Type} {c : Json.Codec α} {x : α} {what argument text : String}
    (h : Supplies w argument text) (hparse : c.parse text = .ok x) :
    (parseArgument (World.host programs) c what argument).run.run w = (.ok x, w) := by
  refine (run_bind text (readJsonArgument_eq h) _).trans ?_
  rw [hparse]
  rfl

theorem run_attempt {ε α : Type} {x : Attempt ε α} {a : α} (wrap : ε → Error)
    (h : x = (.ok (.ok a) : Checked _)) :
    (attempt wrap x : Action (StateM World) α).run.run w = (.ok a, w) := by
  rw [attempt, ExceptT.run, h]
  rfl

variable {args : Arguments} {cnf solution : String}

/-- A solution that is read is accepted if it is one of the formula that is read. -/
theorem verify_eq {a : Assignment} {f : Formula} {bytes : List UInt8}
    (hcnf : args.text "CNF" = .ok cnf) (hsolution : args.text "SOLUTION" = .ok solution)
    (hfile : w.disk.readFile cnf = .ok bytes) (hread : Dimacs.read bytes = .ok f)
    (hsaved : Supplies w solution (Assignment.codec.write a))
    (hverify : a.verify f = (.ok (.ok ()) : Checked _)) :
    (verify (World.host programs) args).run.run w =
      (.ok (), { w with output := w.output ++ "Solution is valid\n" }) := by
  unfold verify
  refine (run_bind cnf (by rw [hcnf]; rfl) _).trans ?_
  refine (run_bind f (World.run_adapt Error.load (World.loadFile_eq hfile hread)) _).trans ?_
  refine (run_bind solution (by rw [hsolution]; rfl) _).trans ?_
  refine (run_bind a (parseArgument_eq hsaved (Assignment.parse_write a)) _).trans ?_
  exact run_bind () (run_attempt Error.solution hverify) _

/-! ### Generating -/

theorem writeText_eq_ok_iff {path text : String} {w' : World} :
    (writeText (World.host programs) path text).run.run w = (.ok (), w') ↔
      ∃ disk, w.disk.writeFile path (Text.toBytes text) = .ok disk ∧ w' = { w with disk } := by
  rw [writeText, run_bind_eq_ok_iff]
  simp only [run_lift]
  cases hd : w.disk.writeFile path (Text.toBytes text) with
  | error e =>
    rw [World.writeFile_of_error hd]
    refine iff_of_false ?_ (by rintro ⟨_, ⟨⟩, -⟩)
    rintro ⟨_, _, ⟨⟩, ⟨⟩⟩
  | ok disk =>
    rw [World.writeFile_of_ok hd]
    constructor
    · rintro ⟨_, _, ⟨⟩, ⟨⟩⟩
      exact ⟨disk, rfl, rfl⟩
    · rintro ⟨_, ⟨⟩, rfl⟩
      exact ⟨_, _, rfl, rfl⟩

/-- A run of the generating command that writes the formula to a file, and its model, if that is
written, to another one. -/
structure Wrote (programs : String → Option Program) (g : Arguments) (w w' : World)
    (d : Difficulty) (seed : String) (planted : Bool) (out : String) : Prop where
  arguments : generateArguments g = .ok (d, seed)
  planted : g.flag "planted" = planted
  output : g.value? "output" = some out
  run : (generate (World.host programs) g).run.run w = (.ok (), w')
  apart : ∀ saved, g.value? "model" = some saved → w'.disk.placeOf out ≠ w'.disk.placeOf saved

variable {g : Arguments} {w' : World} {out seed : String} {d : Difficulty} {f : Formula}
  {model : Option Assignment} {planted : Bool}

/-- The formula is written first, and then its model to that disk. -/
theorem Wrote.disk (h : Wrote programs g w w' d seed planted out)
    (hgen : Generation.ofText seed d planted = (.ok (.ok (f, model)) : Checked _)) :
    ∃ disk, w.disk.writeFile out (Text.toBytes (generatedText seed f model.isSome)) = .ok disk ∧
      (w'.disk = disk ∧ (model = none ∨ g.value? "model" = none) ∨
        ∃ a saved, model = some a ∧ g.value? "model" = some saved ∧
          disk.writeFile saved (Text.toBytes (Assignment.codec.write a)) = .ok w'.disk) := by
  obtain ⟨⟨_, _⟩, w₁, h₁, hrun⟩ := run_bind_eq_ok_iff.1 h.run
  rw [h.arguments] at h₁
  cases h₁
  obtain ⟨⟨_, _⟩, w₁, h₁, hrun⟩ := run_bind_eq_ok_iff.1 hrun
  rw [h.planted, run_attempt Error.generation hgen] at h₁
  cases h₁
  dsimp only at hrun
  rw [h.output] at hrun
  obtain ⟨_, w₁, h₁, hrun⟩ := run_bind_eq_ok_iff.1 hrun
  obtain ⟨disk, hdisk, rfl⟩ := writeText_eq_ok_iff.1 h₁
  obtain ⟨_, w₂, h₂, hrun⟩ := run_bind_eq_ok_iff.1 hrun
  cases h₂
  refine ⟨disk, hdisk, ?_⟩
  cases model with
  | none =>
    cases hrun
    exact .inl ⟨rfl, .inl rfl⟩
  | some a =>
    cases hsaved : g.value? "model" with
    | none =>
      rw [hsaved] at hrun
      cases hrun
      exact .inl ⟨rfl, .inr rfl⟩
    | some saved =>
      rw [hsaved] at hrun
      obtain ⟨_, w₃, h₃, hrun⟩ := run_bind_eq_ok_iff.1 hrun
      obtain ⟨disk', hdisk', rfl⟩ := writeText_eq_ok_iff.1 h₃
      cases hrun
      exact .inr ⟨a, saved, rfl, rfl, hdisk'⟩

/-- The command writes both files if it can. -/
theorem run_generate {a : Assignment} {saved : String} {disk disk' : Files.Disk}
    (hargs : generateArguments g = .ok (d, seed))
    (hgen : Generation.ofText seed d (g.flag "planted") = (.ok (.ok (f, some a)) : Checked _))
    (hout : g.value? "output" = some out) (hsaved : g.value? "model" = some saved)
    (hdisk : w.disk.writeFile out (Text.toBytes (generatedText seed f true)) = .ok disk)
    (hdisk' : disk.writeFile saved (Text.toBytes (Assignment.codec.write a)) = .ok disk') :
    (generate (World.host programs) g).run.run w =
      (.ok (), { w with disk := disk', output := w.output ++
        ("formula written to: " ++ Text.quote out ++ "\n") ++
        ("model written to: " ++ Text.quote saved ++ "\n") }) := by
  unfold generate
  refine (run_bind (d, seed) (by rw [hargs]; rfl) _).trans ?_
  refine (run_bind (f, some a) (run_attempt Error.generation hgen) _).trans ?_
  dsimp only
  rw [hout, hsaved]
  refine (run_bind () (writeText_eq_ok_iff.2 ⟨disk, hdisk, rfl⟩) _).trans ?_
  refine (run_bind () rfl _).trans ?_
  exact run_bind () (writeText_eq_ok_iff.2 ⟨disk', hdisk', rfl⟩) _

/-- Both files read as they were written. -/
theorem Wrote.files (h : Wrote programs g w w' d seed planted out)
    (hgen : Generation.ofText seed d planted = (.ok (.ok (f, model)) : Checked _)) :
    w'.disk.readFile out = .ok (Text.toBytes (generatedText seed f model.isSome)) ∧
      ∀ a ∈ model, ∀ saved, g.value? "model" = some saved →
        w'.disk.readFile saved = .ok (Text.toBytes (Assignment.codec.write a)) := by
  obtain ⟨disk, hout, ⟨rfl, hnone⟩ | ⟨a, saved, rfl, hsaved, hmodel⟩⟩ := h.disk hgen
  · refine ⟨Files.Disk.readFile_writeFile hout, fun a ha saved hsaved => ?_⟩
    rcases hnone with rfl | hnone
    · cases ha
    · rw [hnone] at hsaved
      cases hsaved
  · refine ⟨?_, ?_⟩
    · exact Files.Disk.readFile_writeFile_of_ne hmodel (h.apart saved hsaved)
        (Files.Disk.readFile_writeFile hout)
    · rintro _ ⟨⟩ saved' hsaved'
      obtain rfl := Option.some.inj (hsaved.symm.trans hsaved')
      exact Files.Disk.readFile_writeFile hmodel

/-- What the file of a generated formula says. A seed with a line that starts with a percent sign
ends the file within the comment. With any other seed the formula is read back exactly if no line of
the seed is taken for more than a comment, so with every seed of one line. Where the formula is
read back, the saved model is verified against the file. -/
theorem generated_text_read
    (hgen : Generation.ofText seed d planted = (.ok (.ok (f, model)) : Checked _)) :
    model.isSome = planted ∧
    (Ends (linesOf (comment seed planted).toList) →
      Dimacs.read (Text.toBytes (generatedText seed f planted)) =
        Dimacs.read (Text.toBytes (comment seed planted))) ∧
    (¬ Ends (linesOf (comment seed planted).toList) →
      (Dimacs.read (Text.toBytes (generatedText seed f planted)) = .ok f ↔
        ∀ l ∈ linesOf (comment seed planted).toList, l.Harmless)) ∧
    ('\n' ∉ seed.toList → Dimacs.read (Text.toBytes (generatedText seed f planted)) = .ok f) ∧
    ∀ {programs g w w' out}, Wrote programs g w w' d seed planted out →
      w'.disk.readFile out = .ok (Text.toBytes (generatedText seed f planted)) ∧
      ∀ a ∈ model,
        (∀ saved, g.value? "model" = some saved →
          w'.disk.readFile saved = .ok (Text.toBytes (Assignment.codec.write a))) ∧
        (Dimacs.read (Text.toBytes (generatedText seed f planted)) = .ok f →
          ∀ {v : World} {args : Arguments} {solution : String}, v.disk = w'.disk →
            args.text "CNF" = .ok out → args.text "SOLUTION" = .ok solution →
            Supplies v solution (Assignment.codec.write a) →
            (verify (World.host programs) args).run.run v =
              (.ok (), { v with output := v.output ++ "Solution is valid\n" })) := by
  have hg := Generation.generated_of_ofText hgen
  have hiff (hends : ¬ Ends (linesOf (comment seed planted).toList)) :
      Dimacs.read (Text.toBytes (generatedText seed f planted)) = .ok f ↔
        ∀ l ∈ linesOf (comment seed planted).toList, l.Harmless := by
    rw [generatedText_eq]
    exact Dimacs.read_append_write hg.valid hg.fitsWords hends
  refine ⟨hg.planted, fun hends => ?_, hiff, fun hseed => ?_, ?_⟩
  · rw [generatedText_eq]
    exact Dimacs.read_append_of_ends hends _
  · obtain ⟨l, hlines, hl⟩ := linesOf_comment hseed planted
    have hends : ¬ Ends (linesOf (comment seed planted).toList) := by
      rintro ⟨l', hl', hlast⟩
      rw [hlines, List.mem_singleton] at hl'
      rw [hl', hl] at hlast
      cases hlast
    rw [hiff hends, hlines, List.forall_mem_singleton]
    exact .inr (.inl hl)
  · intro programs g w w' out hwrote
    obtain ⟨hout, hmodel⟩ := hwrote.files hgen
    rw [hg.planted] at hout
    refine ⟨hout, fun a ha => ⟨hmodel a ha, ?_⟩⟩
    intro hread v args solution hv hcnf hsolution hsupplies
    exact verify_eq hcnf hsolution (hv ▸ hout) hread hsupplies (hg.verified a ha)

/-- Three variables and two clauses, with a model. -/
def smallPlanted : Arguments where
  spec := generateSpec
  given := ⟨["3", "2"], [("clause-length", some "3"), ("planted", none), ("output", some "f.cnf"),
    ("model", some "m.json")]⟩

/-- A seed of one line, a seed whose second line is no comment, and one whose second line ends the
file. -/
theorem generated_text_read_seeds :
    (∃ w', Generation.ofText "0" ⟨3, 2, 3⟩ true =
        (.ok (.ok (⟨3, #[[2, -2, 2], [2, 1, 2]]⟩, some ⟨#[true, false, true]⟩)) : Checked _) ∧
      Wrote (fun _ => none) smallPlanted {} w' ⟨3, 2, 3⟩ "0" true "f.cnf" ∧
      Dimacs.read (Text.toBytes (generatedText "0" ⟨3, #[[2, -2, 2], [2, 1, 2]]⟩ true)) =
        .ok ⟨3, #[[2, -2, 2], [2, 1, 2]]⟩ ∧
      (verify (World.host fun _ => none) ⟨verifySpec, ⟨["f.cnf", "m.json"], []⟩⟩).run.run w' =
        (.ok (), { w' with output := w'.output ++ "Solution is valid\n" })) ∧
    (Generation.ofText "a\nb" ⟨3, 2, 3⟩ true =
        (.ok (.ok (⟨3, #[[1, 1, 3], [1, -2, -1]]⟩, some ⟨#[true, true, false]⟩)) : Checked _) ∧
      Dimacs.read (Text.toBytes (generatedText "a\nb" ⟨3, #[[1, 1, 3], [1, -2, -1]]⟩ true)) ≠
        .ok ⟨3, #[[1, 1, 3], [1, -2, -1]]⟩) ∧
    Generation.ofText "a\n%" ⟨3, 2, 3⟩ true =
        (.ok (.ok (⟨3, #[[2, -1, -3], [-3, -1, -3]]⟩, some ⟨#[false, false, true]⟩)) : Checked _) ∧
      Dimacs.read (Text.toBytes (generatedText "a\n%" ⟨3, #[[2, -1, -3], [-3, -1, -3]]⟩ true)) =
        .ok ⟨0, #[]⟩ := by
  have hgen : (Generation.ofText "0" ⟨3, 2, 3⟩ true).run =
      .ok (.ok (⟨3, #[[2, -2, 2], [2, 1, 2]]⟩, some ⟨#[true, false, true]⟩)) := by decide +kernel
  have hletter : (Generation.ofText "a\nb" ⟨3, 2, 3⟩ true).run =
      .ok (.ok (⟨3, #[[1, 1, 3], [1, -2, -1]]⟩, some ⟨#[true, true, false]⟩)) := by decide +kernel
  have hpercent : (Generation.ofText "a\n%" ⟨3, 2, 3⟩ true).run =
      .ok (.ok (⟨3, #[[2, -1, -3], [-3, -1, -3]]⟩, some ⟨#[false, false, true]⟩)) := by
    decide +kernel
  refine ⟨?_, ⟨hletter, fun hread => ?_⟩, hpercent, ?_⟩
  · have hout : Files.IsName "f.cnf" := by decide
    have hmodel : Files.IsName "m.json" := by decide
    have hapart {entries : List (String × Files.Tree)}
        (h : (Files.Tree.child? "f.cnf" entries).isSome = true)
        (h' : (Files.Tree.child? "m.json" entries).isSome = true) (saved : String)
        (hsaved : some "m.json" = some saved) :
        Files.Disk.placeOf ⟨.directory entries, []⟩ "f.cnf" ≠
          Files.Disk.placeOf ⟨.directory entries, []⟩ saved := by
      cases hsaved
      rw [hout.placeOf h, hmodel.placeOf h']
      decide
    obtain ⟨w', hwrote⟩ : ∃ w',
        Wrote (fun _ => none) smallPlanted {} w' ⟨3, 2, 3⟩ "0" true "f.cnf" :=
      ⟨_, rfl, rfl, rfl,
        run_generate rfl hgen rfl rfl (hout.writeFile (by rintro _ ⟨⟩))
          (hmodel.writeFile (by rintro _ ⟨⟩)),
        hapart rfl rfl⟩
    obtain ⟨-, -, -, hone, hfiles⟩ := generated_text_read hgen
    obtain ⟨hsaved, hverify⟩ := (hfiles hwrote).2 _ rfl
    have hread := hone (by decide)
    refine ⟨w', hgen, hwrote, hread, hverify hread rfl rfl rfl ?_⟩
    rw [Supplies, if_neg (by decide), if_pos (by decide)]
    exact hsaved "m.json" rfl
  · obtain ⟨-, -, hiff, -⟩ := generated_text_read hletter
    exact absurd ((hiff (by decide)).1 hread) (by decide)
  · obtain ⟨-, hends, -⟩ := generated_text_read hpercent
    have hlines : Dimacs.effectiveLines (comment "a\n%" true).toList = [] := by decide +kernel
    rw [hends (by decide), Dimacs.read_eq_ok_iff, hlines]
    exact ⟨List.forall_mem_nil _, none, rfl⟩

end SatWalk.CommandLine
