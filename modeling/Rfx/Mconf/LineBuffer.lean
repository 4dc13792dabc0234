import Rfx.Mconf.Termination

namespace Rfx
namespace Mconf

open Library

/-!
# The line of the help text

What is written to `line` is inside it as long as the options and the spaces behind
them leave room for a zero, and there is room for every default and a zero.  Words never go
beyond `width`.  A printer that fills what is left of the line to the last byte leaves no
room for the zero that is written behind its result.
-/

/-- A write is inside the line. -/
def InLine : HelpEvent -> Prop
  | .write index => index < lineSize
  | .puts _ => True
  | .pass _ _ => True

theorem inLine_writes {start stop : Nat} :
    (forall e, e ∈ writes start stop -> InLine e) <-> stop ≤ start ∨ stop ≤ lineSize := by
  constructor
  · intro all
    by_contra outside
    rw [not_or, Nat.not_le, Nat.not_le] at outside
    have last : stop - 1 < lineSize :=
      all (.write (stop - 1)) (mem_writes.mpr ⟨stop - 1, by omega, by omega, rfl⟩)
    omega
  · intro bounded e member
    rcases mem_writes.mp member with ⟨i, from', below, rfl⟩
    change i < lineSize
    omega

variable {M : Type}

/-! ## The description -/

theorem inLine_finish {line : List Byte} :
    (forall e, e ∈ finish line -> InLine e) <-> line.length < lineSize := by
  have cut : (line.rdropWhile (· = 0x20)).length ≤ line.length :=
    (List.rdropWhile_prefix _ line).length_le
  rw [finish, List.forall_mem_append, inLine_writes, List.forall_mem_singleton]
  simp only [InLine, and_true]
  omega

/-- A pass stays inside the line exactly if there is room for a zero behind what it starts with. -/
theorem inLine_helpPass {column e : Nat} {c : Cursor} (inside : e < lineSize) :
    (forall event, event ∈ (helpPass column e c).1 -> InLine event) <->
      max c.line.length column < lineSize := by
  have copied := copyWords_copied e (pad column c.line) c.s
  have longer := copied.longer
  have bounded := copied.inside
  rw [length_pad] at longer bounded
  rw [helpPass, List.forall_mem_append, List.forall_mem_append, List.forall_mem_append,
    inLine_writes, inLine_writes, inLine_finish, List.forall_mem_singleton, length_pad]
  simp only [InLine, and_true]
  omega

/-- So does the whole description. -/
theorem inLine_helpDescription {optW width : Nat} {p : MetadParam M} (inside : width < lineSize) :
    (Trace.Throughout InLine fun fuel => helpDescription optW width fuel p) <->
      max (2 + optionWidth p) (optW + 6) < lineSize := by
  cases described : description p with
  | none =>
      have once (fuel : Nat) : helpDescription optW width fuel p =
          helpNull (optW + 6) width (optionColumn p) := by
        rw [helpDescription, described]
      simp only [once]
      rw [Trace.throughout_const, Trace.Always, helpNull, List.forall_mem_append, inLine_writes,
        length_pad, length_optionColumn]
      split
      · exact ⟨fun _ => by omega, fun _ => ⟨by omega, by simp⟩⟩
      · rw [inLine_finish, length_pad, length_optionColumn]
        omega
  | some s =>
      simp only [helpDescription_some described]
      rw [← length_optionColumn]
      constructor
      · intro all
        exact (inLine_helpPass inside).mp fun event member => all.first member
      · intro room
        refine Trace.throughout_loop
          (fun c : Cursor => max c.line.length (optW + 6) < lineSize) ?_ ?_ room
        · intro c ready
          exact (inLine_helpPass inside).mpr ready
        · intro c next ready more
          rcases helpPass_some.mp more with ⟨_, rfl⟩
          exact Nat.lt_of_le_of_lt (max_le_max_right _ (Nat.zero_le _)) ready

/-! ## The default -/

theorem maxlen_eq {optW : Nat} (room : optW ≤ 112) : maxlen optW = (113 - optW : Nat) := by
  have index : defaultIndex optW = optW + 6 + 9 := rfl
  rw [maxlen, index, lineSize, Int.bmod_eq_of_le]
  · omega
  · omega
  · omega

/-- A value that cannot be printed, because it is of another type, counts as short. -/
theorem short_of_not_printed {which : Shows} {ptr maxlen : Nat} {n : Int} {m : Memory}
    (faulted : which.printer ptr n m = none) : which.Short maxlen (m.cell ptr) := by
  have other : ¬ which.Of (m.cell ptr) := by
    intro own
    have printed : (which.printer ptr n m).isSome = true := printer_isSome_iff.mpr own
    rw [faulted] at printed
    cases printed
  cases which with
  | string => exact fun s allocated cell => absurd ⟨_, _, cell⟩ other
  | aval => exact fun cell => absurd ⟨_, cell⟩ other
  | uintSize => trivial
  | logopts => trivial
  | loglevel => trivial

/-- The default is inside the line exactly if there is room for the text in front of it, and for
a zero behind it. -/
theorem inLine_helpDefault {optW : Nat} {m : Memory} {p : MetadParam Memory} {which : Shows}
    (shown : p.toString = some which.printer) :
    (helpDefault optW m p).Always InLine <-> optW ≤ 112 ∧ which.Short (113 - optW) (m.cell p.ptr) := by
  have index : defaultIndex optW = optW + 15 := rfl
  have constructed :
      (forall e, e ∈ writes 0 ((optW + 6) % 2 ^ 32) ++ writes (optW + 6) (optW + 15 + 1) -> InLine e) <->
        optW ≤ 112 := by
    rw [List.forall_mem_append, inLine_writes, inLine_writes, lineSize]
    omega
  unfold helpDefault
  rw [shown, index]
  dsimp only
  cases printed : which.printer p.ptr (maxlen optW) m with
  | none =>
      rw [Trace.Always, constructed]
      exact (and_iff_left (short_of_not_printed printed)).symm
  | some printed' =>
      dsimp only
      rw [Trace.always_emit, List.forall_mem_append, List.forall_mem_append, constructed, and_assoc,
        and_congr_right_iff]
      intro room
      rw [maxlen_eq room] at printed
      rcases printed_spec which (by omega) printed with ⟨bounded, exact⟩
      rw [← exact, inLine_writes, lineSize]
      split
      · next some =>
          rw [List.forall_mem_cons, List.forall_mem_singleton]
          simp only [InLine, and_true, lineSize]
          omega
      · next none =>
          refine iff_of_true ⟨by omega, by simp⟩ ?_
          omega

/-! ## The whole text -/

/-- There is room for the option of a parameter, and, if it gets that far, for its default. -/
structure Roomy (optW width : Nat) (m : Memory) (p : MetadParam Memory) : Prop where
  column : optW ≤ 121
  option : optionWidth p ≤ 125
  default : forall which : Shows, p.toString = some which.printer -> Described optW width p ->
    optW ≤ 112 ∧ which.Short (113 - optW) (m.cell p.ptr)

theorem inLine_helpParam {optW width : Nat} {m : Memory} {p : MetadParam Memory}
    (inside : width < lineSize)
    (known : forall print, p.toString = some print -> Exists fun which : Shows => print = which.printer) :
    (Trace.Throughout InLine fun fuel => helpParam optW width fuel m p) <->
      (Displayed p -> Roomy optW width m p) := by
  rw [throughout_helpParam]
  refine forall_congr' fun displayed => ?_
  rw [inLine_writes, length_optionColumn, inLine_helpDescription inside]
  constructor
  · rintro ⟨_, description, default⟩
    constructor
    · rw [lineSize] at description
      omega
    · rw [lineSize] at description
      omega
    · intro which shown described
      exact (inLine_helpDefault shown).mp (default described)
  · intro roomy
    have column := roomy.column
    have option := roomy.option
    refine ⟨by rw [lineSize]; omega, by rw [lineSize]; omega, ?_⟩
    intro described
    cases shown : p.toString with
    | none =>
        unfold helpDefault
        rw [shown]
        exact fun e member => absurd member List.not_mem_nil
    | some print =>
        rcases known print shown with ⟨which, rfl⟩
        exact (inLine_helpDefault shown).mpr (roomy.default which shown described)

/-- Every write of `mconf_help_msg` is inside the line exactly if there is room for each
parameter that the text gets to. -/
theorem mconfHelpMsg_inLine_iff {cf : Mconf Memory} {m : Memory}
    (known : forall p, p ∈ cf.params -> forall print, p.toString = some print ->
      Exists fun which : Shows => print = which.printer) :
    Trace.Throughout InLine (cf.mconfHelpMsg 79 m) <->
      forall before p after, cf.params = before ++ p :: after ->
        (forall q, q ∈ before -> Passes cf.optW 79 m q) -> Displayed p -> Roomy cf.optW 79 m p := by
  refine (Trace.throughout_sequence (fueled_helpParam cf.optW 79 m)).trans ?_
  refine forall_congr' fun before => forall_congr' fun p => forall_congr' fun after =>
    forall_congr' fun split => ?_
  have member : p ∈ cf.params := split ▸ List.mem_append_right _ List.mem_cons_self
  rw [inLine_helpParam (by decide) (known p member)]
  simp only [ends_helpParam]

/-- The help for `-s, --size SIZE` is inside the line. -/
theorem mconfHelpMsg_inLine_iff_size :
    Trace.Throughout InLine ((helpConf (text "SIZE|of a buffer")).mconfHelpMsg 79 freshState.memory) := by
  have parameter (p : MetadParam Memory) (member : p ∈ (helpConf (text "SIZE|of a buffer")).params) :
      p = { sizeParam with toString := some mconfGetUintSize, comment := text "SIZE|of a buffer" } :=
    List.mem_singleton.mp member
  refine (mconfHelpMsg_inLine_iff ?_).mpr ?_
  · intro p member print shown
    rw [parameter p member] at shown
    cases shown
    exact ⟨.uintSize, rfl⟩
  · intro before p after split _ _
    rw [parameter p (split ▸ List.mem_append_right _ List.mem_cons_self)]
    refine ⟨by decide, by decide, ?_⟩
    intro which _ _
    refine ⟨by decide, ?_⟩
    cases which with
    | string => exact fun s allocated same => by cases same
    | aval => exact fun same => by cases same
    | uintSize => trivial
    | logopts => trivial
    | loglevel => trivial

/-- `-n, --name`, with a string of 103 characters for a default. -/
def nameParam : MetadParam Memory where
  address := 1
  optShort := 0x6e
  optLong := some (text "name")
  confName := some (text "name")
  set := mconfSetString
  toString := some mconfGetString
  ptr := 2
  optArgs := .requiredArgument
  comment := some []
  optIdx := 0x6e

def nameConf : Mconf Memory :=
  { sizeConf with cb := [⟨[nameParam], some (text "main")⟩] }

def longName : Memory where
  cell := fun _ => .string (some (List.replicate 103 0x61)) true
  errno := 0

/-- The zero behind a string that fills the line is outside of it. -/
theorem mconfHelpMsg_writes_outside :
    ¬ Trace.Throughout InLine (nameConf.mconfHelpMsg 79 longName) := by
  intro inside
  have here := (Trace.throughout_sequence (fueled_helpParam nameConf.optW 79 longName)).mp inside
    [] nameParam [] rfl (fun q member => absurd member List.not_mem_nil)
  have default := (throughout_helpParam.mp here (by decide)).2.2 ⟨[], rfl, Or.inl rfl⟩
  have shown : nameParam.toString = some Shows.string.printer := rfl
  have short := ((inLine_helpDefault shown).mp default).2
  have less := short (List.replicate 103 0x61) true rfl
  rw [List.length_replicate] at less
  exact absurd less (by decide)

end Mconf
end Rfx
