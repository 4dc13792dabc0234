import Rfx.Mconf.LineBuffer

namespace Rfx
namespace Mconf

open Library
open Words (words Seam)

/-!
# The words of the help text

What `mconf_help_msg` puts out is read here as a text of words, as the user sees it.  Where the
text comes to an end and stays inside `line`, it consists of the options, the descriptions and
the defaults, word for word: a line is broken between two words, and what is cut off at its end
are spaces.
-/

/-! ## Lines -/

/-- The lines that are put out. -/
def shown (events : List HelpEvent) : List (List Byte) :=
  events.filterMap fun
    | .puts line => some line
    | .write _ => none
    | .pass _ _ => none

/-- The words of the lines, and lines that fit into the array with their zero. -/
structure Sets (events : List HelpEvent) (text : List (List Byte)) : Prop where
  words_eq : (shown events).flatMap (words inWord) = text
  short : forall line, line ∈ shown events -> line.length < lineSize

theorem shown_append (first second : List HelpEvent) :
    shown (first ++ second) = shown first ++ shown second :=
  List.filterMap_append

theorem shown_writes (start stop : Nat) : shown (writes start stop) = [] := by
  apply List.filterMap_eq_nil_iff.mpr
  intro e member
  rcases mem_writes.mp member with ⟨i, _, _, rfl⟩
  rfl

namespace Sets

variable {first second : List HelpEvent} {text text' : List (List Byte)}

theorem nil : Sets [] [] :=
  ⟨rfl, fun _ member => absurd member List.not_mem_nil⟩

theorem append (front : Sets first text) (back : Sets second text') :
    Sets (first ++ second) (text ++ text') where
  words_eq := by rw [shown_append, List.flatMap_append, front.words_eq, back.words_eq]
  short := by
    intro line member
    rw [shown_append] at member
    rcases List.mem_append.mp member with here | there
    · exact front.short line here
    · exact back.short line there

theorem of_writes (start stop : Nat) : Sets (writes start stop) [] := by
  constructor
  · rw [shown_writes, List.flatMap_nil]
  · intro line member
    rw [shown_writes] at member
    exact absurd member List.not_mem_nil

end Sets

/-! ## One pass -/

theorem inWord_space : inWord 0x20 = false := by decide

theorem inWord_of_isWs {c : Byte} (space : isWs c = true) : inWord c = false := by
  rw [inWord, space]
  rfl

/-- Whitespace does not count, and neither does the space that it becomes. -/
theorem words_dropWhile (s : List Byte) : words inWord (s.dropWhile isWs) = words inWord s := by
  have outside (c : Byte) (member : c ∈ s.takeWhile isWs) : inWord c = false :=
    inWord_of_isWs (List.mem_takeWhile_imp member)
  conv => rhs; rw [← @List.takeWhile_append_dropWhile _ isWs s, Words.words_append_left outside]

theorem words_gap (line : List Byte) (space : Bool) :
    words inWord (line ++ if space then [0x20] else []) = words inWord line := by
  cases space with
  | false => rw [if_neg Bool.false_ne_true, List.append_nil]
  | true =>
      exact Words.words_append_right (fun _ member => List.mem_singleton.mp member ▸ inWord_space) line

theorem apart_takeWhile {line s : List Byte} (apart : Seam inWord line s) :
    Seam inWord line (s.takeWhile inWord) := by
  refine apart.imp_right fun first c head => first c ?_
  cases s with
  | nil => cases head
  | cons d s =>
      rw [List.takeWhile_cons] at head
      split at head
      · exact head
      · cases head

/-- Behind a word there is a space, or nothing. -/
theorem apart_gap (line s : List Byte) :
    Seam inWord (line ++ if (s.dropWhile inWord).head?.any isWs then [0x20] else [])
      ((s.dropWhile inWord).dropWhile isWs) := by
  cases behind : s.dropWhile inWord with
  | nil => exact Or.inr fun c head => by cases head
  | cons d rest =>
      left
      have stopped := (Words.front_takeWhile inWord s).stop d (by rw [behind]; rfl)
      rw [inWord, Bool.not_eq_false'] at stopped
      rw [List.head?_cons, Option.any_some, if_pos stopped]
      intro c last
      rw [List.getLast?_concat] at last
      exact Option.some.inj last ▸ inWord_space

/-- Copying words to a line leaves the words of the line and of the comment what they are. -/
theorem copyWords_words {e : Nat} {line s : List Byte} (apart : Seam inWord line s) :
    words inWord (copyWords e line s).line ++ words inWord (copyWords e line s).s =
      words inWord line ++ words inWord s := by
  induction left : s.length using Nat.strongRecOn generalizing line s with
  | ind n inductionHypothesis =>
      by_cases full : e ≤ line.length ∨ s = []
      · rw [copyWords_full full]
      · rw [not_or, Nat.not_le] at full
        by_cases long : e - line.length ≤ (s.takeWhile inWord).length
        · rw [copyWords_stop full.1 full.2 long]
        · rw [Nat.not_le] at long
          rw [copyWords_next full.2 long,
            inductionHypothesis _ (left ▸ length_behind_space full.2) (apart_gap _ s) rfl,
            words_gap, words_dropWhile, Words.words_append (apart_takeWhile apart), List.append_assoc,
            ← (Words.front_takeWhile inWord s).words_eq]

/-- A line without the spaces at its end. -/
theorem words_rdropWhile (line : List Byte) :
    words inWord (line.rdropWhile (· = 0x20)) = words inWord line := by
  have cut : line.rdropWhile (· = 0x20) ++ line.rtakeWhile (· = 0x20) = line := by
    rw [List.rdropWhile, List.rtakeWhile, ← List.reverse_append, List.takeWhile_append_dropWhile,
      List.reverse_reverse]
  have spaces (c : Byte) (member : c ∈ line.rtakeWhile (· = 0x20)) : inWord c = false := by
    have same := List.mem_rtakeWhile_imp (p := fun c => decide (c = 0x20)) member
    exact of_decide_eq_true same ▸ inWord_space
  conv => rhs; rw [← cut, Words.words_append_right spaces]

theorem words_pad (column : Nat) (line : List Byte) : words inWord (pad column line) = words inWord line :=
  Words.words_append_right (fun _ member => List.eq_of_mem_replicate member ▸ inWord_space) line

/-- Behind a line that ends in front of the column there are spaces. -/
theorem apart_pad {column : Nat} {line : List Byte} (narrow : line.length < column) (s : List Byte) :
    Seam inWord (pad column line) s := by
  left
  intro c last
  have some : List.replicate (column - line.length) (0x20 : Byte) ≠ [] :=
    List.ne_nil_of_length_pos (by rw [List.length_replicate]; omega)
  rw [pad, List.getLast?_append_of_ne_nil _ some] at last
  exact List.eq_of_mem_replicate (List.mem_of_getLast? last) ▸ inWord_space

/-- A pass puts out one line, with the words of the comment that it does not leave. -/
theorem sets_helpPass {column e : Nat} {c : Cursor} (narrow : c.line.length < column)
    (inside : forall event, event ∈ (helpPass column e c).1 -> InLine event) :
    Exists fun text => Sets (helpPass column e c).1 text ∧
      text ++ words inWord (restOf column e c) = words inWord c.line ++ words inWord c.s := by
  have copied := copyWords_words (e := e) (apart_pad narrow c.s)
  have lines : shown (helpPass column e c).1 =
      [(copyWords e (pad column c.line) c.s).line.rdropWhile (· = 0x20)] := by
    simp only [helpPass, finish, shown_append, shown_writes, List.nil_append]
    rfl
  have last : forall event, event ∈ finish (copyWords e (pad column c.line) c.s).line -> InLine event := by
    intro event member
    apply inside
    simp only [helpPass, List.mem_append]
    exact Or.inl (Or.inr member)
  refine ⟨words inWord (copyWords e (pad column c.line) c.s).line, ⟨?_, ?_⟩, ?_⟩
  · rw [lines, List.flatMap_singleton, words_rdropWhile]
  · intro line member
    rw [lines] at member
    rw [List.mem_singleton.mp member]
    exact Nat.lt_of_le_of_lt (List.rdropWhile_prefix _ _).length_le (inLine_finish.mp last)
  · rw [words_pad] at copied
    exact copied

/-! ## The whole text -/

/-- The whole description, with what is in front of it. -/
theorem sets_passes {column e fuel : Nat} (positive : 0 < column) {c : Cursor}
    (narrow : c.line.length < column) (ended : (Trace.loop (helpPass column e) fuel c).Returns)
    (inside : (Trace.loop (helpPass column e) fuel c).Always InLine) :
    Sets (Trace.loop (helpPass column e) fuel c).events (words inWord c.line ++ words inWord c.s) := by
  induction fuel generalizing c with
  | zero => exact absurd ended (Trace.not_returns_loop_zero c)
  | succ fuel inductionHypothesis =>
      cases followed : (helpPass column e c).2 with
      | none =>
          rw [Trace.loop_of_none followed] at inside ⊢
          rcases sets_helpPass narrow inside with ⟨text, sets, same⟩
          rw [helpPass_none.mp followed, Words.words_nil, List.append_nil] at same
          exact same ▸ sets
      | some next =>
          rw [Trace.loop_of_some followed] at ended inside ⊢
          rw [Trace.always_andThen] at inside
          rw [Trace.returns_andThen] at ended
          rcases sets_helpPass narrow inside.1 with ⟨text, sets, same⟩
          rcases helpPass_some.mp followed with ⟨_, rfl⟩
          have later := inductionHypothesis (c := ⟨[], _⟩) positive ended.2 (inside.2 ended.1)
          rw [Trace.andThen_of_returns ended.1, ← same]
          exact sets.append later

variable {M : Type}

/-- The words of a default. -/
def defaultWords (optW : Nat) (m : M) (p : MetadParam M) : List (List Byte) :=
  match p.toString.bind fun print => print p.ptr (maxlen optW) m with
  | none => []
  | some printed =>
      if 0 < printed.l then
        text "default:" :: words inWord ((printed.buf.take printed.l.toNat).takeWhile (· ≠ 0))
      else []

/-- The words of the help for a parameter: those of the option, of what it is described with, and
of its default. -/
def helpWords (optW : Nat) (m : M) (p : MetadParam M) : List (List Byte) :=
  if Displayed p then
    words inWord (optionColumn p) ++ words inWord ((description p).getD []) ++ defaultWords optW m p
  else []

theorem sets_default {optW l : Nat} {buf : List Byte} (inside : InLine (.write (defaultIndex optW + l))) :
    Sets [.write (defaultIndex optW + l),
        .puts (List.replicate (optW + 6) 0x20 ++ text "default: " ++ (buf.take l).takeWhile (· ≠ 0))]
      (text "default:" :: words inWord ((buf.take l).takeWhile (· ≠ 0))) := by
  generalize shownEq : (buf.take l).takeWhile (· ≠ 0) = value
  have cut : value.length ≤ l := by
    rw [← shownEq]
    exact Nat.le_trans (List.takeWhile_sublist _).length_le (List.length_take_le _ _)
  have spaces (c : Byte) (member : c ∈ List.replicate (optW + 6) (0x20 : Byte)) : inWord c = false :=
    List.eq_of_mem_replicate member ▸ inWord_space
  have apart : Seam inWord (text "default: ") value := Or.inl fun c last => by
    cases last
    rfl
  constructor
  · change words inWord (_ ++ text "default: " ++ value) ++ [] = _
    rw [List.append_nil, List.append_assoc, Words.words_append_left spaces, Words.words_append apart]
    rfl
  · intro line member
    rw [List.mem_singleton.mp member, List.length_append, List.length_append, List.length_replicate]
    change optW + 6 + 9 + l < lineSize at inside
    change optW + 6 + 9 + value.length < lineSize
    omega

/-- A default has a line of its own. -/
theorem sets_helpDefault {optW : Nat} {m : M} {p : MetadParam M} (ended : (helpDefault optW m p).Returns)
    (inside : (helpDefault optW m p).Always InLine) :
    Sets (helpDefault optW m p).events (defaultWords optW m p) := by
  unfold helpDefault at ended inside ⊢
  unfold defaultWords
  cases shownEq : p.toString with
  | none => exact .nil
  | some print =>
      simp only [shownEq, Option.bind_some] at ended inside ⊢
      cases printedEq : print p.ptr (maxlen optW) m with
      | none =>
          rw [printedEq] at ended
          cases ended
      | some printed =>
          simp only [printedEq, Trace.emit] at inside ⊢
          by_cases some : 0 < printed.l
          · simp only [if_pos some] at inside ⊢
            have written : InLine (.write (defaultIndex optW + printed.l.toNat)) :=
              inside _ (List.mem_append_right _ List.mem_cons_self)
            refine (((Sets.of_writes _ _).append (.of_writes _ _)).append (.of_writes _ _)).append ?_
            exact sets_default written
          · simp only [if_neg some, List.append_nil]
            exact ((Sets.of_writes _ _).append (.of_writes _ _)).append (.of_writes _ _)

theorem sets_helpParam {optW width fuel : Nat} {m : M} {p : MetadParam M}
    (narrow : Displayed p -> optionWidth p ≤ optW) (ended : (helpParam optW width fuel m p).Returns)
    (inside : (helpParam optW width fuel m p).Always InLine) :
    Sets (helpParam optW width fuel m p).events (helpWords optW m p) := by
  unfold helpParam at ended inside ⊢
  unfold helpWords
  by_cases displayed : Displayed p
  · simp only [if_pos displayed] at ended inside ⊢
    rw [Trace.returns_andThen, Trace.returns_andThen] at ended
    rw [Trace.always_andThen, Trace.always_andThen] at inside
    rcases ended with ⟨first, described, default⟩
    rcases inside with ⟨_, inside⟩
    rw [Trace.andThen_of_returns first, Trace.andThen_of_returns described]
    refine (Sets.of_writes _ _).append (.append ?_ (sets_helpDefault default ((inside first).2 described)))
    have inside := (inside first).1
    cases commented : description p with
    | none =>
        rw [helpDescription, commented] at described
        cases described
    | some s =>
        rw [helpDescription_some commented] at described inside ⊢
        refine sets_passes (Nat.succ_pos _) ?_ described inside
        have fits := narrow displayed
        rw [length_optionColumn]
        omega
  · simp only [if_neg displayed]
    exact .nil

/-- An option that was written to the line is as wide as it was found to be, so the column of the
descriptions is behind it. -/
theorem optionWidth_le_of_inLine {cf : Mconf M} {width fuel : Nat} {m : M} {p : MetadParam M}
    (member : p ∈ cf.params) (displayed : Displayed p)
    (inside : (helpParam cf.optW width fuel m p).Always InLine) : optionWidth p ≤ cf.optW := by
  have wrapped := optionWidth_le member
  rw [helpParam, if_pos displayed, Trace.always_andThen, Trace.always_emit, inLine_writes,
    length_optionColumn, lineSize] at inside
  rwa [Nat.mod_eq_of_lt (by omega)] at wrapped

theorem sets_sequence {cf : Mconf M} {width fuel : Nat} {m : M} {ps : List (MetadParam M)}
    (part : forall p, p ∈ ps -> p ∈ cf.params)
    (ended : (Trace.sequence (helpParam cf.optW width fuel m) ps).Returns)
    (inside : (Trace.sequence (helpParam cf.optW width fuel m) ps).Always InLine) :
    Sets (Trace.sequence (helpParam cf.optW width fuel m) ps).events
      (ps.flatMap (helpWords cf.optW m)) := by
  induction ps with
  | nil => exact .nil
  | cons p ps inductionHypothesis =>
      rw [Trace.sequence, Trace.returns_andThen] at ended
      rw [Trace.sequence, Trace.always_andThen] at inside
      rcases List.forall_mem_cons.mp part with ⟨member, later⟩
      have first := sets_helpParam
        (fun displayed => optionWidth_le_of_inLine member displayed inside.1) ended.1 inside.1
      rw [Trace.sequence, Trace.andThen_of_returns ended.1]
      exact first.append (inductionHypothesis later ended.2 (inside.2 ended.1))

/-- The help text shows everything and nothing else.  If it comes to an end without a write outside
of its line, its words are those of the options, of their descriptions and of their defaults, in
the order of the parameters, and no word is broken; and every line fits into the array. -/
theorem help_shows_every_word {cf : Mconf M} {width fuel : Nat} {m : M}
    (ended : (cf.mconfHelpMsg width m fuel).Returns)
    (inside : (cf.mconfHelpMsg width m fuel).Always InLine) :
    (shown (cf.mconfHelpMsg width m fuel).events).flatMap (words inWord) =
        cf.params.flatMap (helpWords cf.optW m) ∧
      forall line, line ∈ shown (cf.mconfHelpMsg width m fuel).events -> line.length < lineSize := by
  have sets := sets_sequence (fun _ member => member) ended inside
  exact ⟨sets.words_eq, sets.short⟩

instance (e : HelpEvent) : Decidable (InLine e) :=
  match e with
  | .write index => inferInstanceAs (Decidable (index < lineSize))
  | .puts _ => inferInstanceAs (Decidable True)
  | .pass _ _ => inferInstanceAs (Decidable True)

/-- The words of the help for `-s, --size SIZE`, in lines that have no room for all of them. -/
theorem help_shows_every_word_size :
    (shown ((helpConf (text "SIZE|of a buffer")).mconfHelpMsg 30 freshState.memory 2).events).length = 3 ∧
      (shown ((helpConf (text "SIZE|of a buffer")).mconfHelpMsg 30 freshState.memory 2).events).flatMap
          (words inWord) =
        [text "-s,", text "--size", text "SIZE", text "of", text "a", text "buffer", text "default:",
          text "0g"] := by
  have ended : ((helpConf (text "SIZE|of a buffer")).mconfHelpMsg 30 freshState.memory 2).Returns := by
    unfold Trace.Returns
    decide +kernel
  have inside : ((helpConf (text "SIZE|of a buffer")).mconfHelpMsg 30 freshState.memory 2).Always InLine := by
    unfold Trace.Always
    decide +kernel
  refine ⟨by decide +kernel, (help_shows_every_word ended inside).1.trans ?_⟩
  decide +kernel

end Mconf
end Rfx
