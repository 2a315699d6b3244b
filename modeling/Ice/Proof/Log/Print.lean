import Ice.Log.Print
import Mathlib.Data.List.TakeWhile
import Mathlib.Tactic.SplitIfs

/-!
# What a log looks like

On a terminal, the log is the one that a file would get, and the level and the message of each
entry have their own formats: nothing of an entry's format is left for the next one, whichever
of the two streams shows on the terminal. What a `manager` writes is followed by its pen
(`Holds`), and a byte on another stream by the frame of `Writes`. Each entry ends its line
(`line_print`), so that a terminal that both streams show on has all of it before the next one
begins; what a file gets is said of one stream only.

A message goes to a terminal as a C string. So the two logs have the same text exactly when no
message has a NUL in it.
-/

set_option autoImplicit false

namespace Ice

open Lib Screen

variable {c c' c'' : Console} {stream : FILE} {keep : FILE → Bool}

/-! ## 1. What is written, and where -/

namespace Console

/-- What was put on the streams that end up in one place. -/
def text (keep : FILE → Bool) (c : Console) : List UInt8 :=
  (c.written.filter fun w => keep w.1).map Prod.snd

@[simp] theorem tty_write (c : Console) (stream : FILE) (bytes : List UInt8) :
    (c.write stream bytes).tty = c.tty :=
  rfl

theorem text_write (c : Console) (bytes : List UInt8) (hkeep : keep stream = true) :
    (c.write stream bytes).text keep = c.text keep ++ bytes := by
  simp [text, write, List.filter_map, Function.comp_def, hkeep]

theorem text_write_other (c : Console) (bytes : List UInt8) (hkeep : keep stream = false) :
    (c.write stream bytes).text keep = c.text keep := by
  simp [text, write, List.filter_map, Function.comp_def, hkeep]

theorem write_write (c : Console) (stream : FILE) (bytes bytes' : List UInt8) :
    (c.write stream bytes).write stream bytes' = c.write stream (bytes ++ bytes') := by
  simp [write]

/-- Something was put on this stream and nothing else was done. -/
def Writes (stream : FILE) (c c' : Console) : Prop := ∃ bytes, c' = c.write stream bytes

theorem Writes.refl (stream : FILE) (c : Console) : Writes stream c c :=
  ⟨[], by simp [write]⟩

theorem Writes.trans (h : Writes stream c c') (h' : Writes stream c' c'') :
    Writes stream c c'' := by
  obtain ⟨bytes, rfl⟩ := h
  obtain ⟨bytes', rfl⟩ := h'
  exact ⟨_, write_write c stream bytes bytes'⟩

theorem Writes.tty (h : Writes stream c c') : c'.tty = c.tty := by
  obtain ⟨bytes, rfl⟩ := h
  rfl

theorem Writes.text (h : Writes stream c c') (hkeep : keep stream = false) :
    c'.text keep = c.text keep := by
  obtain ⟨bytes, rfl⟩ := h
  exact text_write_other c bytes hkeep

theorem writes_fputs (c : Console) (bytes : List UInt8) : Writes stream c (c.fputs bytes stream) :=
  ⟨_, rfl⟩

theorem writes_setStyle (c : Console) (format : Format) (style : Style) (bytes : List UInt8) :
    Writes stream c (c.setStyle stream format style bytes) := by
  unfold setStyle
  split
  · exact writes_fputs c bytes
  · exact .refl stream c

theorem writes_set (c : Console) (format : Format) : Writes stream c (c.set stream format) := by
  unfold set
  split
  · exact .refl stream c
  · refine .trans ?_ (writes_setStyle _ format .conceal _)
    refine .trans ?_ (writes_setStyle _ format .reverse _)
    refine .trans ?_ (writes_setStyle _ format .blink _)
    refine .trans ?_ (writes_setStyle _ format .underline _)
    refine .trans ?_ (writes_setStyle _ format .dark _)
    refine .trans ?_ (writes_setStyle _ format .bold _)
    split
    · exact writes_fputs c _
    · exact .refl stream c

theorem writes_reset (c : Console) : Writes stream c (c.reset stream) := by
  unfold reset
  split
  · exact .refl stream c
  · exact writes_fputs c _

end Console

/-! ## 2. The pen of a format -/

namespace Format

/-- The foreground of a color that has a sequence. -/
def ink (color : BitVec 8) : Option Ink :=
  if color = Color.grey.value then some (.rgb 130 130 130)
  else if color = Color.red.value then some (.indexed 1)
  else if color = Color.green.value then some (.indexed 2)
  else if color = Color.yellow.value then some (.indexed 3)
  else if color = Color.blue.value then some (.indexed 4)
  else if color = Color.magenta.value then some (.indexed 5)
  else if color = Color.cyan.value then some (.indexed 6)
  else if color = Color.white.value then some (.indexed 7)
  else none

/-- What text in a format should look like. -/
def pen (format : Format) : Pen where
  foreground := ink format.color
  bold := format.is .bold
  faint := format.is .dark
  underline := format.is .underline
  blink := format.is .blink
  reverse := format.is .reverse
  conceal := format.is .conceal

theorem pen_of_not_isSet {format : Format} (h : format.isSet = false) : format.pen = .default := by
  obtain ⟨value⟩ := format
  have hvalue : value = 0 := by simpa [isSet] using h
  subst hvalue
  rfl

end Format

namespace Console

/-- The terminal reads no sequence at the moment, and has this pen and these cells. -/
def Shows (keep : FILE → Bool) (c : Console) (pen : Pen) (cells : List (UInt8 × Pen)) : Prop :=
  blank.feed (c.text keep) = ⟨.ground, pen, cells⟩

variable {pen pen' : Pen} {cells : List (UInt8 × Pen)} {bytes : List UInt8} {format : Format}

theorem Shows.write (h : Shows keep c pen cells) (hkeep : keep stream = true)
    (hbytes : esc ∉ bytes) : Shows keep (c.write stream bytes) pen (cells ++ inked pen bytes) := by
  rw [Shows, text_write c bytes hkeep, feed_append, h, feed_plain hbytes]

theorem Shows.fputs (h : Shows keep c pen cells) (hkeep : keep stream = true)
    (hbytes : esc ∉ bytes.takeWhile (· ≠ 0)) :
    Shows keep (c.fputs bytes stream) pen (cells ++ inked pen (bytes.takeWhile (· ≠ 0))) :=
  h.write hkeep hbytes

/-- A control sequence. -/
theorem Shows.sequence (h : Shows keep c pen cells) (hkeep : keep stream = true)
    (hbytes : ∀ cells, feed ⟨.ground, pen, cells⟩ (bytes.takeWhile (· ≠ 0)) =
      ⟨.ground, pen', cells⟩) : Shows keep (c.fputs bytes stream) pen' cells := by
  rw [Shows, Console.fputs, text_write c _ hkeep, feed_append, h, hbytes]

/-- A style has a sequence that sets one field of the pen. -/
theorem Shows.setStyle (field : Bool → Pen) {style : Style} (h : Shows keep c (field false) cells)
    (hkeep : keep stream = true)
    (hbytes : ∀ cells, feed ⟨.ground, field false, cells⟩ (bytes.takeWhile (· ≠ 0)) =
      ⟨.ground, field true, cells⟩) :
    Shows keep (c.setStyle stream format style bytes) (field (format.is style)) cells := by
  unfold Console.setStyle
  cases hstyle : format.is style with
  | true => exact h.sequence hkeep hbytes
  | false => exact h

theorem feed_color (color : BitVec 8) (cells : List (UInt8 × Pen)) :
    feed ⟨.ground, .default, cells⟩ (((Format.colorText color).getD []).takeWhile (· ≠ 0)) =
      ⟨.ground, { Pen.default with foreground := Format.ink color }, cells⟩ := by
  unfold Format.colorText Format.ink
  split_ifs <;> rfl

theorem Shows.set (h : Shows keep c .default cells) (hkeep : keep stream = true)
    (htty : c.tty.is_tty stream = true) : Shows keep (c.set stream format) format.pen cells := by
  unfold Console.set
  cases hset : format.isSet with
  | false =>
    rw [Format.pen_of_not_isSet hset]
    exact h
  | true =>
    simp only [htty, Bool.not_true, Bool.or_self, Bool.false_eq_true, if_false]
    refine Shows.setStyle (fun on => { format.pen with conceal := on }) ?_ hkeep fun _ => rfl
    refine Shows.setStyle (fun on => { format.pen with conceal := false, reverse := on })
      ?_ hkeep fun _ => rfl
    refine Shows.setStyle (fun on => { format.pen with
      conceal := false, reverse := false, blink := on }) ?_ hkeep fun _ => rfl
    refine Shows.setStyle (fun on => { format.pen with
      conceal := false, reverse := false, blink := false, underline := on }) ?_ hkeep fun _ => rfl
    refine Shows.setStyle (fun on => { Pen.default with
      foreground := Format.ink format.color, bold := format.is .bold, faint := on })
      ?_ hkeep fun _ => rfl
    refine Shows.setStyle (fun on => { Pen.default with
      foreground := Format.ink format.color, bold := on }) ?_ hkeep fun _ => rfl
    have hcolor := feed_color format.color
    cases htext : Format.colorText format.color with
    | some text =>
      rw [htext] at hcolor
      exact h.sequence hkeep hcolor
    | none =>
      rw [htext] at hcolor
      exact h.trans (hcolor cells)

theorem Shows.reset (h : Shows keep c pen cells) (hkeep : keep stream = true)
    (htty : c.tty.is_tty stream = true) : Shows keep (c.reset stream) .default cells := by
  rw [Console.reset, htty]
  exact h.sequence hkeep fun _ => rfl

end Console

/-! ## 3. The manager -/

namespace Manager

open Console

variable {m : Manager} {pen : Pen} {cells : List (UInt8 × Pen)} {bytes : List UInt8}
  {format : Format}

/-- The manager's stream shows on the terminal, and a pen that is not the default one is going to
    be reset. -/
structure Holds (keep : FILE → Bool) (m : Manager) (pen : Pen) (cells : List (UInt8 × Pen)) :
    Prop where
  kept : keep m.stream_ = true
  tty : m.console.tty.is_tty m.stream_ = true
  shows : Shows keep m.console pen cells
  owed : m.reset_ = false → pen = .default

theorem Holds.reset (h : Holds keep m pen cells) : Holds keep m.reset .default cells := by
  unfold Manager.reset
  cases hreset : m.reset_ with
  | true =>
    have hw : Writes m.stream_ m.console (m.console.reset m.stream_) := writes_reset m.console
    exact ⟨h.kept, (congrArg (Tty.is_tty · m.stream_) hw.tty).trans h.tty,
      h.shows.reset h.kept h.tty, fun _ => rfl⟩
  | false =>
    obtain rfl := h.owed hreset
    exact h

theorem Holds.set (h : Holds keep m pen cells) : Holds keep (m.set format) format.pen cells := by
  have hreset := h.reset
  unfold Manager.set
  cases hset : format.isSet with
  | true =>
    have hw : Writes m.reset.stream_ m.reset.console (m.reset.console.set m.reset.stream_ format) :=
      writes_set m.reset.console format
    exact ⟨hreset.kept, (congrArg (Tty.is_tty · m.reset.stream_) hw.tty).trans hreset.tty,
      hreset.shows.set hreset.kept hreset.tty, nofun⟩
  | false =>
    rw [Format.pen_of_not_isSet hset]
    exact hreset

theorem holds_construct (h : Shows keep c .default cells) (hkeep : keep stream = true)
    (htty : c.tty.is_tty stream = true) (format : Format) :
    Holds keep (construct c stream format) format.pen cells :=
  Holds.set ⟨hkeep, htty, h, fun _ => rfl⟩

theorem Holds.fputs (h : Holds keep m pen cells) (hbytes : esc ∉ bytes.takeWhile (· ≠ 0)) :
    Holds keep (m.fputs bytes) pen (cells ++ inked pen (bytes.takeWhile (· ≠ 0))) :=
  ⟨h.kept, h.tty, h.shows.fputs h.kept hbytes, h.owed⟩

/-- A text that is a C string. -/
theorem Holds.literal (h : Holds keep m pen cells) (hcstr : bytes.takeWhile (· ≠ 0) = bytes)
    (hbytes : esc ∉ bytes) : Holds keep (m.fputs bytes) pen (cells ++ inked pen bytes) := by
  have hfputs := h.fputs (hcstr.symm ▸ hbytes)
  rwa [hcstr] at hfputs

theorem Holds.destroy (h : Holds keep m pen cells) : Shows keep m.destroy .default cells :=
  h.reset.shows

/-- Behind a reset nothing is left for the destructor. -/
theorem destroy_fputs_reset (m : Manager) (bytes : List UInt8) :
    (m.reset.fputs bytes).destroy = m.reset.console.fputs bytes m.reset.stream_ := by
  have hreset : (m.reset.fputs bytes).reset_ = false := by
    unfold fputs reset
    cases hreset : m.reset_ <;> simp [hreset]
  rw [destroy, reset, if_neg (by simp [hreset])]
  rfl

/-- What a manager does is put on its stream. -/
def Owns (stream : FILE) (c : Console) (m : Manager) : Prop :=
  m.stream_ = stream ∧ Writes stream c m.console

theorem Owns.reset (h : Owns stream c m) : Owns stream c m.reset := by
  obtain ⟨rfl, hw⟩ := h
  unfold Manager.reset
  split
  · exact ⟨rfl, hw.trans (writes_reset m.console)⟩
  · exact ⟨rfl, hw⟩

theorem Owns.set (h : Owns stream c m) (format : Format) : Owns stream c (m.set format) := by
  obtain ⟨hstream, hw⟩ := h.reset
  unfold Manager.set
  split
  · subst hstream
    exact ⟨rfl, hw.trans (writes_set m.reset.console format)⟩
  · exact ⟨hstream, hw⟩

theorem owns_construct (h : Writes stream c c') (format : Format) :
    Owns stream c (construct c' stream format) :=
  Owns.set ⟨rfl, h⟩ format

theorem Owns.fputs (h : Owns stream c m) (bytes : List UInt8) : Owns stream c (m.fputs bytes) := by
  obtain ⟨rfl, hw⟩ := h
  exact ⟨rfl, hw.trans (writes_fputs m.console bytes)⟩

theorem Owns.destroy (h : Owns stream c m) : Writes stream c m.destroy :=
  h.reset.2

end Manager

/-! ## 4. One entry -/

namespace Log

open Console Manager

variable {τ : Type*} {stamp : τ → Int → List UInt8} {entry : Entry τ} {entries : List (Entry τ)}
  {cells : List (UInt8 × Pen)}

/-- The format that the message is shown in. -/
def Entry.messageFormat (entry : Entry τ) : Format :=
  if entry.format.isSet then entry.format
  else if entry.level = .debug then get_level_format entry.level
  else .empty

/-- The part of the message that a C string ends. -/
def Entry.shown (entry : Entry τ) : List UInt8 := entry.message.takeWhile (· ≠ 0)

/-- The line that a file gets. -/
def plain (stamp : τ → Int → List UInt8) (entry : Entry τ) : List UInt8 :=
  stamp entry.tm entry.ms ++ ascii " [" ++ get_level_string entry.level true ++ ascii "] " ++
    entry.message ++ ascii "\n"

/-- The line that should be seen on a terminal. -/
def colored (stamp : τ → Int → List UInt8) (entry : Entry τ) : List (UInt8 × Pen) :=
  inked .default (stamp entry.tm entry.ms ++ ascii " [") ++
    inked (get_level_format entry.level).pen (get_level_string entry.level true) ++
    inked .default (ascii "] ") ++ inked entry.messageFormat.pen entry.shown ++
    inked .default (ascii "\n")

/-- The texts of the levels are C strings without a control sequence. -/
theorem level_string_plain (level : Level) :
    (get_level_string level true).takeWhile (· ≠ 0) = get_level_string level true ∧
      esc ∉ get_level_string level true := by
  cases level with
  | other value h => exact ⟨rfl, show esc ∉ ascii "unknown  " by decide⟩
  | _ => exact ⟨rfl, by decide⟩

/-- An entry is one run of bytes on its stream, and ends its line. -/
theorem line_print (c : Console) :
    ∃ bytes, entry.print stamp c = c.write entry.stream (bytes ++ ascii "\n") := by
  have hstamp : Writes entry.stream c
      (c.write entry.stream (stamp entry.tm entry.ms ++ ascii " [")) := ⟨_, rfl⟩
  unfold Entry.print
  dsimp only
  split
  · have hlevel := (((owns_construct hstamp (get_level_format entry.level)).fputs
      (get_level_string entry.level true)).reset).fputs (ascii "] ")
    rw [destroy_fputs_reset]
    generalize ((construct _ _ _).fputs _).reset.fputs _ = manager at hlevel ⊢
    have hmessage : Owns entry.stream c
        ((if entry.format.isSet then manager.set entry.format
          else if entry.level = .debug then manager.set (get_level_format entry.level)
          else manager).fputs entry.message).reset := by
      refine Owns.reset (Owns.fputs ?_ entry.message)
      split
      · exact hlevel.set entry.format
      · split
        · exact hlevel.set (get_level_format entry.level)
        · exact hlevel
    obtain ⟨hstream, bytes, hconsole⟩ := hmessage
    refine ⟨bytes, ?_⟩
    rw [hstream, hconsole]
    exact write_write c entry.stream bytes (ascii "\n")
  · rw [write_write]
    exact ⟨_, congrArg (c.write entry.stream) (List.append_assoc _ _ _).symm⟩

theorem writes_print (c : Console) : Writes entry.stream c (entry.print stamp c) := by
  obtain ⟨bytes, hline⟩ : ∃ bytes, entry.print stamp c = _ := line_print c
  exact ⟨_, hline⟩

/-- On a terminal an entry leaves its line and the default pen. -/
theorem shows_print (hstamp : ∀ tm ms, esc ∉ stamp tm ms) (hshown : esc ∉ entry.shown)
    (hkeep : keep entry.stream = true) (htty : c.tty.is_tty entry.stream = true)
    (h : Shows keep c .default cells) :
    Shows keep (entry.print stamp c) .default (cells ++ colored stamp entry) := by
  obtain ⟨hcstr, hlevel⟩ := level_string_plain entry.level
  have hstart : esc ∉ stamp entry.tm entry.ms ++ ascii " [" := by
    rw [List.mem_append, not_or]
    exact ⟨hstamp _ _, by decide⟩
  have hbracket := h.write hkeep hstart
  -- the level, in its own format
  have hmanager := ((holds_construct hbracket hkeep htty
    (get_level_format entry.level)).literal hcstr hlevel).reset.literal
      (show (ascii "] ").takeWhile (· ≠ 0) = ascii "] " from rfl) (by decide)
  unfold Entry.print
  dsimp only
  rw [if_pos (show (c.write entry.stream _).tty.is_tty entry.stream = true from htty)]
  generalize ((construct _ _ _).fputs _).reset.fputs _ = manager at hmanager ⊢
  have hmessage : Holds keep
      (if entry.format.isSet then manager.set entry.format
        else if entry.level = .debug then manager.set (get_level_format entry.level)
        else manager) entry.messageFormat.pen
      (cells ++ inked .default (stamp entry.tm entry.ms ++ ascii " [") ++
        inked (get_level_format entry.level).pen (get_level_string entry.level true) ++
        inked .default (ascii "] ")) := by
    unfold Entry.messageFormat
    split
    · exact hmanager.set
    · split
      · exact hmanager.set
      · exact hmanager
  have hline := ((hmessage.fputs hshown).reset.literal
    (show (ascii "\n").takeWhile (· ≠ 0) = ascii "\n" from rfl) (by decide)).destroy
  simpa only [colored, Entry.shown, List.append_assoc] using hline

/-- Elsewhere it leaves the line as it is. -/
theorem text_print (c : Console) (hkeep : keep entry.stream = true)
    (htty : c.tty.is_tty entry.stream = false) :
    (entry.print stamp c).text keep = c.text keep ++ plain stamp entry := by
  unfold Entry.print
  dsimp only
  rw [tty_write, htty]
  simp only [Bool.false_eq_true, if_false, text_write _ _ hkeep, plain, List.append_assoc]

/-! ## 5. The log -/

/-- All entries, one after the other. -/
def printAll (stamp : τ → Int → List UInt8) (c : Console) (entries : List (Entry τ)) : Console :=
  entries.foldl (fun c entry => entry.print stamp c) c

/-- The entries of some streams. -/
def kept (keep : FILE → Bool) (entries : List (Entry τ)) : List (Entry τ) :=
  entries.filter fun entry => keep entry.stream

theorem kept_cons (h : keep entry.stream = true) :
    kept keep (entry :: entries) = entry :: kept keep entries :=
  List.filter_cons_of_pos h

theorem kept_cons_other (h : keep entry.stream = false) :
    kept keep (entry :: entries) = kept keep entries :=
  List.filter_cons_of_neg (by simp [h])

theorem shows_printAll (hstamp : ∀ tm ms, esc ∉ stamp tm ms)
    (hshown : ∀ entry ∈ kept keep entries, esc ∉ entry.shown)
    (htty : ∀ stream, keep stream = true → c.tty.is_tty stream = true)
    (h : Shows keep c .default cells) :
    Shows keep (printAll stamp c entries) .default
      (cells ++ (kept keep entries).flatMap (colored stamp)) := by
  induction entries generalizing c cells with
  | nil => simpa [printAll, kept] using h
  | cons entry rest ih =>
    have hw : Writes entry.stream c (entry.print stamp c) := writes_print c
    have hnext : ∀ stream, keep stream = true →
        (entry.print stamp c).tty.is_tty stream = true := by
      rw [hw.tty]
      exact htty
    cases hkeep : keep entry.stream with
    | true =>
      rw [kept_cons hkeep] at hshown ⊢
      have hentry := shows_print hstamp (hshown entry List.mem_cons_self) hkeep
        (htty entry.stream hkeep) h
      have hlog := ih (fun e hin => hshown e (List.mem_cons_of_mem entry hin)) hnext hentry
      rwa [List.flatMap_cons, ← List.append_assoc]
    | false =>
      rw [kept_cons_other hkeep] at hshown ⊢
      have hentry : Shows keep (entry.print stamp c) .default cells := by
        rw [Shows, hw.text hkeep]
        exact h
      exact ih hshown hnext hentry

theorem text_printAll (c : Console)
    (htty : ∀ stream, keep stream = true → c.tty.is_tty stream = false) :
    (printAll stamp c entries).text keep =
      c.text keep ++ (kept keep entries).flatMap (plain stamp) := by
  induction entries generalizing c with
  | nil => simp [printAll, kept]
  | cons entry rest ih =>
    have hw : Writes entry.stream c (entry.print stamp c) := writes_print c
    have hlog := ih (entry.print stamp c) (by rwa [hw.tty])
    cases hkeep : keep entry.stream with
    | true =>
      rw [text_print c hkeep (htty entry.stream hkeep)] at hlog
      rwa [kept_cons hkeep, List.flatMap_cons, ← List.append_assoc]
    | false =>
      rw [hw.text hkeep] at hlog
      rwa [kept_cons_other hkeep]

theorem shown_eq_iff : entry.shown = entry.message ↔ 0 ∉ entry.message := by
  rw [Entry.shown, List.takeWhile_eq_self_iff]
  constructor
  · intro h hzero
    simpa using h 0 hzero
  · intro h byte hbyte
    exact decide_eq_true fun hzero => h (hzero ▸ hbyte)

theorem map_fst_colored :
    (colored stamp entry).map Prod.fst = plain stamp entry ↔ 0 ∉ entry.message := by
  rw [← shown_eq_iff]
  simp [colored, plain]

/-- The line on a terminal is not longer than the plain one. -/
theorem length_colored_le : (colored stamp entry).length ≤ (plain stamp entry).length := by
  have hshown : entry.shown.length ≤ entry.message.length := (List.takeWhile_prefix _).length_le
  simp only [colored, plain, inked, List.length_append, List.length_map]
  omega

theorem length_log_le (entries : List (Entry τ)) :
    (entries.flatMap (colored stamp)).length ≤ (entries.flatMap (plain stamp)).length := by
  induction entries with
  | nil => exact Nat.le_refl 0
  | cons entry rest ih =>
    rw [List.flatMap_cons, List.flatMap_cons, List.length_append, List.length_append]
    exact Nat.add_le_add length_colored_le ih

/-- No line makes up for what another one has lost. -/
theorem map_fst_log :
    (entries.flatMap (colored stamp)).map Prod.fst = entries.flatMap (plain stamp) ↔
      ∀ entry ∈ entries, 0 ∉ entry.message := by
  induction entries with
  | nil => simp
  | cons entry rest ih =>
    rw [List.forall_mem_cons, ← ih, ← map_fst_colored, List.flatMap_cons, List.flatMap_cons,
      List.map_append]
    constructor
    · intro h
      have hlen := congrArg List.length h
      simp only [List.length_append, List.length_map] at hlen
      have hline : (colored stamp entry).length ≤ (plain stamp entry).length := length_colored_le
      have hrest : (rest.flatMap (colored stamp)).length ≤ (rest.flatMap (plain stamp)).length :=
        length_log_le rest
      exact List.append_inj h (by rw [List.length_map]; omega)
    · rintro ⟨hline, hrest⟩
      rw [hline, hrest]

/-- **A colored log is the plain log.** Each entry is one run of bytes on its stream that ends its
    line. Whichever streams `keep` show on one terminal, it shows the line of each of their entries
    in order, the level and the message in their formats and the rest in the default one, which is
    also what is left. A stream that is not a terminal gets the plain lines of its entries. The two
    texts are the same exactly when no message has a NUL. -/
theorem print_shows (hstamp : ∀ tm ms, esc ∉ stamp tm ms) (tty : Tty) (entries : List (Entry τ)) :
    let c := printAll stamp ⟨tty, []⟩ entries
    (∀ (entry : Entry τ) (c : Console), ∃ bytes,
      entry.print stamp c = c.write entry.stream (bytes ++ ascii "\n")) ∧
    (∀ keep : FILE → Bool, (∀ stream, keep stream = true → tty.is_tty stream = true) →
      (∀ entry ∈ kept keep entries, esc ∉ entry.shown) →
      blank.feed (c.text keep) = ⟨.ground, .default, (kept keep entries).flatMap (colored stamp)⟩) ∧
    (∀ stream, tty.is_tty stream = false →
      c.on stream = (kept (· = stream) entries).flatMap (plain stamp)) ∧
    ∀ keep, ((kept keep entries).flatMap (colored stamp)).map Prod.fst =
        (kept keep entries).flatMap (plain stamp) ↔
      ∀ entry ∈ kept keep entries, 0 ∉ entry.message := by
  refine ⟨fun _ => line_print, fun keep htty hshown => ?_, fun stream htty => ?_,
    fun _ => map_fst_log⟩
  · have hblank : Shows keep ⟨tty, []⟩ .default [] := rfl
    exact shows_printAll hstamp hshown htty hblank
  · have hplain : ∀ other, decide (other = stream) = true → tty.is_tty other = false := by
      intro other hother
      rw [of_decide_eq_true hother]
      exact htty
    exact text_printAll (c := ⟨tty, []⟩) hplain

/-- An error and a warning on one terminal: the warning, which is bold, does not change the pen of
    the error that follows it, and the message of the error ends at its NUL. -/
theorem print_shows_two :
    let stamp : Unit → Int → List UInt8 := fun _ _ => ascii "2020-02-03 04:05:06.007"
    let entries : List (Entry Unit) :=
      [⟨(), 7, .warning, Format.ofColorStyle .white .bold, ascii "disk"⟩,
        ⟨(), 7, .error, .empty, ascii "a" ++ [0] ++ ascii "b"⟩]
    let c := printAll stamp ⟨⟨true, true⟩, []⟩ entries
    blank.feed (c.text fun stream => stream = .stdout || stream = .stderr) =
        ⟨.ground, .default, entries.flatMap (colored stamp)⟩ ∧
      (entries.flatMap (colored stamp)).map Prod.fst ≠ entries.flatMap (plain stamp) := by
  intro stamp entries c
  let keep : FILE → Bool := fun stream => stream = .stdout || stream = .stderr
  obtain ⟨-, hshows, -, htext⟩ :=
    print_shows (fun _ _ => (by decide : esc ∉ stamp () 7)) ⟨true, true⟩ entries
  have hkept : kept keep entries = entries := rfl
  have htty : ∀ stream, keep stream = true → Tty.is_tty ⟨true, true⟩ stream = true := by
    intro stream
    cases stream <;> simp [Tty.is_tty, keep]
  exact ⟨hshows keep htty (by decide), mt (hkept ▸ htext keep).mp (by decide)⟩

end Log

end Ice
