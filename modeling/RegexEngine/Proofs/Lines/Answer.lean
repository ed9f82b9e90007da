import RegexEngine.Proofs.Lines.Reading
import RegexEngine.Proofs.Lines.Running
import RegexEngine.Proofs.Search.Spans

/-!
# Line Options of a Pattern and of a Search

To compile a pattern under the options that change how line anchors and dots are read is the same as
to give these options to each search with the program that is compiled without them. This holds for
patterns in which no setting switches the options, since a setting is for the pattern to decide and
cannot be overruled by a search.

## Main definitions

* `Compiles`: Two compilations have the same error or lead to programs that go in step.

## Theorems

* `ofTree_lined`: What becomes of the hints of a tree.
* `compile_lined`: A pattern is compiled in step with and without the options.
* `search_lines`: The options may be given to the pattern or to the search.
-/

namespace RegexEngine

variable {m d : Bool}

namespace Hints

/-- The hint that an item gives where options are added. -/
theorem ofFirst_lined (item : Tree) : (ofFirst item).Lined m (ofFirst (item.withLines m d)) := by
  cases item with
  | anchor kind multiline =>
      cases kind with
      | lineStart =>
          -- A line anchor gives its hint only where lines do not count.
          refine ⟨rfl, rfl, ?_, ?_⟩
          · cases multiline <;> simp [ofFirst, Node.withLines]
          · rintro rfl
            simp [ofFirst, Node.withLines]
      | _ => exact ⟨rfl, rfl, id, fun _ => rfl⟩
  | _ => exact ⟨rfl, rfl, id, fun _ => rfl⟩

/-- The hints of a tree that is read where options are added. -/
theorem ofTree_lined (tree : Tree) : (ofTree tree).Lined m (ofTree (tree.withLines m d)) := by
  have hfront : (tree.withLines m d).front = tree.front.withLines m d := by
    cases tree with
    | sequence items => cases items <;> rfl
    | _ => rfl
  rw [Node.hints_front, Node.hints_front, hfront]
  exact ofFirst_lined tree.front

end Hints

namespace Options

theorem optionsFor_lines (asked : Options) (dialect : Dialect) :
    Program.optionsFor (asked.union (lines m d)) dialect =
      (Program.optionsFor asked dialect).union (lines m d) := by
  simp [Program.optionsFor, union, diff, searchOnly, lines, Bool.or_right_comm]

end Options

namespace Program

variable {pattern : List UInt8} {asked options given : Options} {enc : Encoding} {dialect : Dialect}
  {limits readLimits : Limits} {parsed : Pattern.Parsed} {program other : Program}

/-- Two compilations fail in the same way, or lead to programs of which the second has options in
its code that the first has not. -/
inductive Compiles (m d : Bool) : (result other : Except Error Program) → Prop
  | fails (e : Error) : Compiles m d (.error e) (.error e)
  | programs {program other : Program} (lined : program.Lined m d other)
      (hints : program.hints.Lined m other.hints) : Compiles m d (.ok program) (.ok other)

/-- A pattern that was read is made code of in step. -/
theorem ofParsed_lined (hmultiline : options.multiline = false) (hdotAll : options.dotAll = false) :
    Compiles m d (ofParsed pattern options enc dialect parsed)
      (ofParsed pattern (options.union (Options.lines m d)) enc dialect
        (parsed.withLines m d)) := by
  have hemit : (prepare enc dialect (parsed.withLines m d).tree).emit enc {} =
      ((prepare enc dialect parsed.tree).emit enc {}).map fun made =>
        (Code.withLines m d made.1, made.2) := by
    have htree : (parsed.withLines m d).tree = parsed.tree.withLines m d := rfl
    rw [htree, prepare_withLines, Node.emit_withLines]
    change StateT.map _ _ _ = _
    rw [StateT.map]
    rcases (prepare enc dialect parsed.tree).emit enc {} with cause | made <;> rfl
  rw [ofParsed, ofParsed, hemit]
  rcases (prepare enc dialect parsed.tree).emit enc {} with cause | ⟨code, ids⟩
  · exact .fails _
  · refine .programs ⟨?_, rfl, rfl, rfl, rfl, rfl, hmultiline, hdotAll⟩ (Hints.ofTree_lined _)
    simp [Code.withLines, Instr.withLines]

/-- A pattern is compiled in step with and without the options. -/
theorem compile_lined
    (hunswitched : Pattern.Unswitched pattern (optionsFor asked dialect) enc dialect readLimits)
    (hmultiline : (optionsFor asked dialect).multiline = false)
    (hdotAll : (optionsFor asked dialect).dotAll = false) :
    Compiles m d (compile pattern asked enc dialect readLimits)
      (compile pattern (asked.union (Options.lines m d)) enc dialect readLimits) := by
  rw [compile, compile, Options.optionsFor_lines, Pattern.parse_lines hunswitched]
  rcases Pattern.parse pattern (optionsFor asked dialect) enc dialect readLimits with
    failure | parsed
  · exact .fails _
  · exact ofParsed_lined hmultiline hdotAll

/-- What a call looks at if the options are given to the search, and if they are in the code. -/
theorem Lined.make (h : program.Lined m d other) (subject : Array UInt8) (start range : Nat)
    (given : Options) :
    (Context.make program subject start range (given.union (Options.lines m d))).Lined m d
      (Context.make other subject start range given) where
  encoding := h.encoding.symm
  subject := rfl
  range := rfl
  searchStart := rfl
  options := by
    simp [Context.make, h.options, Options.union, Options.lines, h.multiline, h.dotAll]
  multiline := by
    simp only [Context.make, Options.diff, Options.union_lines_multiline, h.options, h.multiline]
    cases m <;> simp
  dotAll := by
    simp only [Context.make, Options.diff, Options.union_lines_dotAll, h.options, h.dotAll]
    cases d <;> simp

/-- The options are refused by neither program, and others by both. -/
theorem Lined.checkOptions (h : program.Lined m d other) (given : Options) :
    program.checkOptions (given.union (Options.lines m d)) = other.checkOptions given := by
  have hrefused : (given.union (Options.lines m d)).compileOnly.diff program.options =
      given.compileOnly.diff other.options := by
    simp [Options.compileOnly, Options.diff, h.options]
  rw [Program.checkOptions, Program.checkOptions, hrefused]

theorem Lined.checkRegion (h : program.Lined m d other) (region : Region) :
    program.checkRegion region = other.checkRegion region := by
  rw [Program.checkRegion, Program.checkRegion, slotCount, slotCount, h.groups]

variable {subject : Array UInt8} {start range fuel : Nat} {region : Region}

/-- A search answers the same, and leaves the same region. -/
theorem searchWithin_lined (h : program.Lined m d other)
    (hhints : program.hints.Lined m other.hints) (htells : program.Tells program.hints)
    (htells' : other.Tells other.hints) :
    program.searchWithin (fuel + 1) subject start range region
        (given.union (Options.lines m d)) limits =
      other.searchWithin (fuel + 1) subject start range region given limits := by
  have hfind := @findFrom_lined m d program other limits _ _ fuel h
    (h.make subject start range given) hhints htells htells'
  rw [searchWithin, searchWithin, h.checkOptions, h.checkRegion, hfind]

/-- So does a match. -/
theorem matchWithin_lined (h : program.Lined m d other) :
    program.matchWithin fuel subject start region (given.union (Options.lines m d)) limits =
      other.matchWithin fuel subject start region given limits := by
  have hfind := @findAt_lined m d program other limits _ _ fuel h
    (h.make subject start subject.size given)
  rw [matchWithin, matchWithin, h.checkOptions, h.checkRegion, hfind]

theorem Compiles.error_iff {result result' : Except Error Program} (h : Compiles m d result result')
    (e : Error) : result = .error e ↔ result' = .error e := by
  cases h with
  | fails => exact Iff.rfl
  | programs => simp

/-- The hints of a compiled program are true of it. -/
theorem tells_of_compile (h : compile pattern asked enc dialect readLimits = .ok program) :
    program.Tells program.hints := by
  rcases compile_ok h with ⟨parsed, hparse, hprogram⟩
  exact tells_hints hparse hprogram

/-- To give the options for lines and dots, or one of them, to a search is the same as to have
compiled the pattern under them, unless a setting in the pattern switches one of them, or the
pattern or its dialect has one already. Either way the pattern is refused for the same reason, or
every search and every match answers the same, with a position or an error, and leaves the same
region. -/
theorem search_lines
    (hunswitched : Pattern.Unswitched pattern (optionsFor asked dialect) enc dialect readLimits)
    (hasked : asked.multiline = false ∧ asked.dotAll = false)
    (hdialect : dialect.options.multiline = false ∧ dialect.options.dotAll = false) (m d : Bool) :
    (∀ e, compile pattern asked enc dialect readLimits = .error e ↔
      compile pattern (asked.union (Options.lines m d)) enc dialect readLimits = .error e) ∧
    ∀ program other, compile pattern asked enc dialect readLimits = .ok program →
      compile pattern (asked.union (Options.lines m d)) enc dialect readLimits = .ok other →
      ∀ subject start range region given limits,
        program.search subject start range region (given.union (Options.lines m d)) limits =
          other.search subject start range region given limits ∧
        program.matchAt subject start region (given.union (Options.lines m d)) limits =
          other.matchAt subject start region given limits ∧
        ∀ fuel,
          program.searchWithin (fuel + 1) subject start range region
              (given.union (Options.lines m d)) limits =
            other.searchWithin (fuel + 1) subject start range region given limits ∧
          program.matchWithin fuel subject start region (given.union (Options.lines m d)) limits =
            other.matchWithin fuel subject start region given limits := by
  have hmultiline : (optionsFor asked dialect).multiline = false := by
    simp [optionsFor, Options.union, Options.diff, hasked.1, hdialect.1]
  have hdotAll : (optionsFor asked dialect).dotAll = false := by
    simp [optionsFor, Options.union, Options.diff, hasked.2, hdialect.2]
  have hcompiles := @compile_lined m d _ _ _ _ _ hunswitched hmultiline hdotAll
  refine ⟨hcompiles.error_iff, fun program other hprogram hother => ?_⟩
  have htells := tells_of_compile hprogram
  have htells' := tells_of_compile hother
  rw [hprogram, hother] at hcompiles
  rcases hcompiles with _ | ⟨hlined, hhints⟩
  intro subject start range region given limits
  have hsearch := fun fuel => @searchWithin_lined m d given limits program other subject start range
    fuel region hlined hhints htells htells'
  have hmatch := fun fuel => @matchWithin_lined m d given limits program other subject start fuel
    region hlined
  -- A search may take some steps, so an attempt can be refused at its first one.
  have hbound : stepBound = (2 ^ 62 - 1) + 1 := rfl
  rw [search, search, matchAt, matchAt, hbound]
  exact ⟨hsearch _, hmatch _, fun fuel => ⟨hsearch fuel, hmatch fuel⟩⟩

/-- With `(?i)^.b$`, the lines of a text are only told apart under the options. A setting of another
option does not matter. -/
theorem search_lines_setting :
    ∃ program other, compile [40, 63, 105, 41, 94, 46, 98, 36] {} .utf8 Dialect.standard {} =
        .ok program ∧
      compile [40, 63, 105, 41, 94, 46, 98, 36] (Options.empty.union (Options.lines true true))
        .utf8 Dialect.standard {} = .ok other ∧
      Pattern.Unswitched [40, 63, 105, 41, 94, 46, 98, 36] (optionsFor {} Dialect.standard) .utf8
        Dialect.standard {} ∧
      (program.searchWithin 50 #[120, 10, 10, 66, 10, 121] 0 6 (Region.ofCapacity 1) {} {}).1 =
        .ok none ∧
      (other.searchWithin 50 #[120, 10, 10, 66, 10, 121] 0 6 (Region.ofCapacity 1) {} {}).1 =
        .ok (some 2) ∧
      program.searchWithin 50 #[120, 10, 10, 66, 10, 121] 0 6 (Region.ofCapacity 1)
          (Options.empty.union (Options.lines true true)) {} =
        other.searchWithin 50 #[120, 10, 10, 66, 10, 121] 0 6 (Region.ofCapacity 1) {} {} := by
  -- The programs without and with the options, and the answers of both in the end.
  have hprogram : ((compile [40, 63, 105, 41, 94, 46, 98, 36] {} .utf8 Dialect.standard
      {}).toOption.any fun program =>
        (program.searchWithin 50 #[120, 10, 10, 66, 10, 121] 0 6 (Region.ofCapacity 1) {}
          {}).1.toOption == some none) = true := by decide +kernel
  have hother : ((compile [40, 63, 105, 41, 94, 46, 98, 36]
      (Options.empty.union (Options.lines true true)) .utf8 Dialect.standard {}).toOption.any
      fun other => (other.searchWithin 50 #[120, 10, 10, 66, 10, 121] 0 6 (Region.ofCapacity 1) {}
        {}).1.toOption == some (some 2)) = true := by decide +kernel
  -- The pattern never switches the options itself.
  have hunswitched : Pattern.Unswitched [40, 63, 105, 41, 94, 46, 98, 36]
      (optionsFor {} Dialect.standard) .utf8 Dialect.standard {} :=
    .of_read { cause := .parserBug, offset := 0 } (by decide +kernel)
  rcases exists_compiled hprogram with ⟨program, hprogram, hnone⟩
  rcases exists_compiled hother with ⟨other, hother, hsome⟩
  refine ⟨program, other, hprogram, hother, hunswitched, eq_ok_of_toOption (eq_of_beq hnone),
    eq_ok_of_toOption (eq_of_beq hsome), ?_⟩
  -- The theorem at this call with the options raised while searching.
  have hlines := (search_lines hunswitched ⟨rfl, rfl⟩ ⟨rfl, rfl⟩ true true).2 program other hprogram
    hother #[120, 10, 10, 66, 10, 121] 0 6 (Region.ofCapacity 1) {} {}
  exact (hlines.2.2 49).1

end Program

end RegexEngine
