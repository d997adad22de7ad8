import CliChat.Common.Utf8
import CliChat.Lib.Zipper

/-! @src client/src/ncursesUI.cpp | name:PromptInput | scheme:refinement

    The line editor. `wget_wch` delivers a code and whether it is a character or a function key;
    the `switch` looks at the code only. The code edits a wide string at an index; over it stands a
    list with a cursor, and each case of the `switch` is one operation of that. So no index is ever
    out of range.

        input, cursorPos  ◀─ line ─  left │ right
        erase, insert, ±1            deleteLeft, deleteRight, insert, move, home, end -/

namespace CliChat

/-! ### Key codes -/

/-- `KEY_MIN`: function keys have codes from here on. -/
def keyMin : WChar := 257

def keyDown : WChar := 258
def keyUp : WChar := 259
def keyLeft : WChar := 260
def keyRight : WChar := 261
def keyHome : WChar := 262
def keyBackspace : WChar := 263
def keyDc : WChar := 330
def keyEnd : WChar := 360

/-- What `wget_wch` returns: `ERR`, `OK` with a character, or `KEY_CODE_YES` with a function key. -/
inductive Wch where
  | err
  | char (ch : WChar)
  | key (ch : WChar) (h : keyMin ≤ ch)
  deriving DecidableEq

/-- `ch`, as `PromptInput` sees it. -/
def Wch.code : Wch → Option WChar
  | .err => none
  | .char ch => some ch
  | .key ch _ => some ch

/-! ### The code -/

/-- `input` and `cursorPos`. -/
structure Line where
  input : WString
  cursorPos : ℕ
  deriving DecidableEq

/-- `std::wstring::erase(pos, n)`; `none` when it throws. -/
def WString.erase (s : WString) (pos n : ℕ) : Option WString :=
  if pos ≤ s.length then some (s.take pos ++ s.drop (pos + n)) else none

/-- `std::wstring::insert(pos, n, ch)`; `none` when it throws. -/
def WString.insert (s : WString) (pos n : ℕ) (ch : WChar) : Option WString :=
  if pos ≤ s.length then some (s.take pos ++ List.replicate n ch ++ s.drop pos) else none

/-- The labels of the `switch`. -/
inductive Label where
  | backspace | left | right | vertical | dc | home | «end» | default
  deriving DecidableEq

def label (ch : WChar) : Label :=
  if ch = keyBackspace ∨ ch = 127 ∨ ch = 8 then .backspace
  else if ch = keyLeft then .left
  else if ch = keyRight then .right
  else if ch = keyUp ∨ ch = keyDown then .vertical
  else if ch = keyDc then .dc
  else if ch = keyHome then .home
  else if ch = keyEnd then .end
  else .default

variable (iswprint : WChar → Bool)

/-- The `switch`; `none` when a string operation throws. -/
def Line.switch (l : Line) (ch : WChar) : Option Line :=
  match label ch with
  | .backspace =>
    if 0 < l.cursorPos then
      (WString.erase l.input (l.cursorPos - 1) 1).map fun s => ⟨s, l.cursorPos - 1⟩
    else some l
  | .left => some (if 0 < l.cursorPos then { l with cursorPos := l.cursorPos - 1 } else l)
  | .right =>
    some (if l.cursorPos < l.input.length then { l with cursorPos := l.cursorPos + 1 } else l)
  | .vertical => some l
  | .dc =>
    if l.cursorPos < l.input.length then
      (WString.erase l.input l.cursorPos 1).map fun s => { l with input := s }
    else some l
  | .home => some { l with cursorPos := 0 }
  | .end => some { l with cursorPos := l.input.length }
  | .default =>
    if iswprint ch then
      (WString.insert l.input l.cursorPos 1 ch).map fun s => ⟨s, l.cursorPos + 1⟩
    else some l

/-- Where `PromptInput` stands: before the test of `running`, before `wget_wch`, or done. What it
    returned has a ghost: whether a newline was read. -/
inductive Prompt where
  | testing (l : Line)
  | reading (l : Line)
  | returned (inputOpt : Option Bytes) (enter : Bool)
  | threw
  deriving DecidableEq

variable (u : Utf8)

/-- `return to_utf8(input)`. -/
def Line.return (l : Line) (enter : Bool) : Prompt :=
  match u.utf32to8 l.input with
  | none => .threw
  | some bs => .returned (some bs) enter

/-- `while (running)`. -/
def Prompt.test (running : Bool) : Prompt → Prompt
  | .testing l => if running then .reading l else l.return u false
  | p => p

/-- The body of the loop. -/
def Prompt.read (w : Wch) : Prompt → Prompt
  | .reading l =>
    match w.code with
    | none => .testing l
    | some ch =>
      if ch = newline then l.return u true
      else
        match l.switch iswprint ch with
        | none => .threw
        | some l' => .testing l'
  | p => p

/-- The first test of `running`. -/
def Prompt.enter (running : Bool) : Prompt :=
  if running then .testing ⟨[], 0⟩ else .returned none false

/-- `NcursesUI::PromptInput`: what `running` holds at each test, and what `wget_wch` returns after
    it. -/
def promptInput (running : Bool) (passes : List (Bool × Wch)) : Prompt :=
  passes.foldl (fun p x => (p.test u x.1).read iswprint u x.2) (.enter running)

/-! ### The reference editor -/

/-- One code, on the two parts of the line. -/
def referenceKey (z : Zipper WChar) (ch : WChar) : Zipper WChar :=
  match label ch with
  | .backspace => z.deleteLeft
  | .left => z.moveLeft
  | .right => z.moveRight
  | .vertical => z
  | .dc => z.deleteRight
  | .home => z.home
  | .end => z.toEnd
  | .default => if iswprint ch then z.insert ch else z

/-- What `wget_wch` returns, one after the other; `ERR` is skipped. -/
def reference (ws : List Wch) : Zipper WChar :=
  (ws.filterMap Wch.code).foldl (referenceKey iswprint) .empty

/-- The line of the code. -/
def lineOf (z : Zipper WChar) : Line := ⟨z.text, z.pos⟩

/-! ### Refinement -/

section refinement

variable {iswprint : WChar → Bool} {u : Utf8}

theorem reference_concat (ws : List Wch) (w : Wch) : reference iswprint (ws ++ [w]) =
    (w.code.map (referenceKey iswprint (reference iswprint ws))).getD (reference iswprint ws) := by
  cases hw : w.code <;> simp [reference, List.filterMap_append, hw]

/-- STEP: a case of the `switch` is an operation of the reference editor, and no string operation
    throws. -/
theorem switch_lineOf (z : Zipper WChar) (ch : WChar) :
    (lineOf z).switch iswprint ch = some (lineOf (referenceKey iswprint z ch)) := by
  have hpos := z.pos_le
  unfold Line.switch referenceKey lineOf
  cases label ch with
  | backspace =>
    dsimp only
    by_cases h0 : 0 < z.pos
    · rw [if_pos h0, WString.erase, if_pos (by omega), Nat.sub_add_cancel h0, ← z.deleteLeft_text,
        z.deleteLeft_pos]
      rfl
    · have hpos : z.pos = 0 := by omega
      have hz : z.deleteLeft = z := by
        ext1
        · simp [Zipper.deleteLeft, List.length_eq_zero_iff.mp hpos]
        · rfl
      rw [if_neg h0, hz]
  | left =>
    dsimp only
    rw [z.moveLeft_text, z.moveLeft_pos]
    split
    · rfl
    · congr 2
      omega
  | right =>
    dsimp only
    rw [z.moveRight_text, z.moveRight_pos]
    split <;> rfl
  | vertical => rfl
  | dc =>
    dsimp only
    by_cases hlt : z.pos < z.text.length
    · rw [if_pos hlt, WString.erase, if_pos hpos, ← z.deleteRight_text]
      rfl
    · have hdrop : z.text.drop z.pos = [] := List.drop_eq_nil_of_le (by omega)
      have hright : z.right = [] := by simpa using hdrop
      have hz : z.deleteRight = z := by
        ext1
        · rfl
        · simp [Zipper.deleteRight, hright]
      rw [if_neg hlt, hz]
  | home => rfl
  | «end» =>
    dsimp only
    rw [z.toEnd_text, z.toEnd_pos]
  | default =>
    dsimp only
    by_cases hprint : iswprint ch = true
    · rw [if_pos hprint, if_pos hprint, WString.insert, if_pos hpos, List.replicate_one,
        ← z.insert_text, z.insert_pos]
      rfl
    · rw [if_neg hprint, if_neg hprint]

/-- RUNS: before a newline the code's line is the reference editor's. -/
theorem promptInput_testing (ws : List Wch) (hws : ∀ w ∈ ws, w.code ≠ some newline) :
    promptInput iswprint u true (ws.map fun w => (true, w)) =
      .testing (lineOf (reference iswprint ws)) := by
  induction ws using List.reverseRecOn with
  | nil => rfl
  | append_singleton ws w ih =>
    have hprefix := ih fun v hv => hws v (List.mem_append_left _ hv)
    rw [promptInput] at hprefix
    rw [promptInput, List.map_append, List.foldl_append, hprefix, reference_concat]
    have hw := hws w (by simp)
    cases hcode : w.code with
    | none => simp [Prompt.test, Prompt.read, hcode]
    | some ch =>
      have hch : ch ≠ newline := fun h => hw (by rw [hcode, h])
      simp [Prompt.test, Prompt.read, hcode, hch, switch_lineOf]

/-- Once it has returned, nothing more is read. -/
theorem promptInput_returned {running : Bool} {inputOpt : Option Bytes} {enter : Bool}
    {passes : List (Bool × Wch)}
    (h : promptInput iswprint u running passes = .returned inputOpt enter)
    (rest : List (Bool × Wch)) :
    promptInput iswprint u running (passes ++ rest) = .returned inputOpt enter := by
  rw [promptInput] at h
  rw [promptInput, List.foldl_append, h]
  induction rest with
  | nil => rfl
  | cons x rest ih => exact ih

/-- At a newline the line is returned. -/
theorem promptInput_newline (ws : List Wch) (hws : ∀ w ∈ ws, w.code ≠ some newline) {w : Wch}
    (hw : w.code = some newline) :
    promptInput iswprint u true (ws.map (fun w => (true, w)) ++ [(true, w)]) =
      (lineOf (reference iswprint ws)).return u true := by
  have hbefore := @promptInput_testing iswprint u ws hws
  rw [promptInput] at hbefore ⊢
  rw [List.foldl_append, hbefore]
  simp [Prompt.test, Prompt.read, hw]

/-- STEP: what is printable stays so. -/
theorem mem_referenceKey {z : Zipper WChar} (hz : ∀ c ∈ z.text, iswprint c = true) (ch : WChar) :
    ∀ c ∈ (referenceKey iswprint z ch).text, iswprint c = true := by
  have hkeep : ∀ {z' : Zipper WChar}, z'.left ⊆ z.left → z'.right ⊆ z.right →
      ∀ c ∈ z'.text, iswprint c = true := by
    intro z' hl hr c hc
    rcases List.mem_append.mp hc with hc | hc
    · exact hz c (List.mem_append_left _ (hl hc))
    · exact hz c (List.mem_append_right _ (hr hc))
  have hsame : ∀ {z' : Zipper WChar}, z'.text = z.text → ∀ c ∈ z'.text, iswprint c = true := by
    intro z' h
    rw [h]
    exact hz
  unfold referenceKey
  cases label ch with
  | backspace => exact @hkeep z.deleteLeft (List.dropLast_subset _) (List.Subset.refl _)
  | left => exact hsame z.moveLeft_text
  | right => exact hsame z.moveRight_text
  | vertical => exact hz
  | dc => exact @hkeep z.deleteRight (List.Subset.refl _) (List.tail_subset _)
  | home => exact hsame z.home_text
  | «end» => exact hsame z.toEnd_text
  | default =>
    dsimp only
    split
    · rename_i hprint
      intro c hc
      simp only [Zipper.insert, Zipper.text, List.append_assoc, List.mem_append,
        List.mem_singleton] at hc
      rcases hc with hc | rfl | hc
      · exact hz c (List.mem_append_left _ hc)
      · exact hprint
      · exact hz c (List.mem_append_right _ hc)
    · exact hz

/-- The characters of the line were printable. -/
theorem mem_reference (ws : List Wch) : ∀ c ∈ (reference iswprint ws).text, iswprint c = true := by
  induction ws using List.reverseRecOn with
  | nil => simp [reference, Zipper.empty, Zipper.text]
  | append_singleton ws w ih =>
    rw [reference_concat]
    cases w.code with
    | none => exact ih
    | some ch => exact mem_referenceKey ih ch

/-- A printable line is returned as its UTF-8 encoding. -/
theorem return_lineOf (hprint : ∀ ch, iswprint ch = true → ch.isValidChar) (hu : u.Lawful)
    {z : Zipper WChar} (hz : ∀ c ∈ z.text, iswprint c = true) (enter : Bool) :
    ∃ cs, z.text = widen cs ∧
      (lineOf z).return u enter = .returned (some (encodeUtf8 cs)) enter := by
  obtain ⟨cs, hcs⟩ := exists_widen fun c hc => hprint c (hz c hc)
  have hencoded := (hu.encodes z.text (encodeUtf8 cs)).mpr ⟨cs, hcs, rfl⟩
  exact ⟨cs, hcs, by rw [Line.return, lineOf, hencoded]⟩

/-- EDITOR: whatever `wget_wch` delivers, before a newline the state is that of the reference editor,
    its cursor inside the line, and no string operation throws; at the newline the UTF-8 encoding of
    the line is returned. -/
theorem line_editor (hprint : ∀ ch, iswprint ch = true → ch.isValidChar) (hu : u.Lawful)
    (ws : List Wch) (hws : ∀ w ∈ ws, w.code ≠ some newline) :
    promptInput iswprint u true (ws.map fun w => (true, w)) =
        .testing ⟨(reference iswprint ws).left ++ (reference iswprint ws).right,
          (reference iswprint ws).left.length⟩ ∧
      (reference iswprint ws).left.length ≤
        ((reference iswprint ws).left ++ (reference iswprint ws).right).length ∧
      ∀ w rest, w.code = some newline →
        ∃ cs, (reference iswprint ws).left ++ (reference iswprint ws).right = widen cs ∧
          promptInput iswprint u true (ws.map (fun w => (true, w)) ++ (true, w) :: rest) =
            .returned (some (encodeUtf8 cs)) true := by
  refine ⟨promptInput_testing ws hws, (reference iswprint ws).pos_le, fun w rest hw => ?_⟩
  obtain ⟨cs, hcs, hreturn⟩ := return_lineOf hprint hu (mem_reference ws) true
  have hnewline := @promptInput_newline iswprint u ws hws _ hw
  refine ⟨cs, hcs, ?_⟩
  rw [List.append_cons]
  exact promptInput_returned (hnewline.trans hreturn) rest

/-- ASCII is what prints. -/
def asciiPrint (ch : WChar) : Bool := decide (32 ≤ ch ∧ ch < 127)

theorem asciiPrint_isValidChar (ch : WChar) (h : asciiPrint ch = true) : ch.isValidChar :=
  .inl (lt_trans (of_decide_eq_true h).2 (by decide))

theorem line_editor_hi :
    promptInput asciiPrint .core true
        ([.char 104, .err, .char 33, .key keyLeft (by decide), .char 105].map fun w => (true, w)) =
      .testing ⟨[104, 105, 33], 2⟩ ∧
    ∃ cs, [104, 105, 33] = widen cs ∧ promptInput asciiPrint .core true
        ([.char 104, .err, .char 33, .key keyLeft (by decide), .char 105].map (fun w => (true, w)) ++
          [(true, .char newline)]) = .returned (some (encodeUtf8 cs)) true := by
  have h := line_editor asciiPrint_isValidChar Utf8.core_lawful
    [.char 104, .err, .char 33, .key keyLeft (by decide), .char 105] (by decide)
  exact ⟨h.1, h.2.2 (.char newline) [] rfl⟩

end refinement

/-! ### Characters and function keys -/

/-- What a function key does. -/
def functionKey (z : Zipper WChar) (ch : WChar) : Zipper WChar :=
  if ch = keyBackspace then z.deleteLeft
  else if ch = keyLeft then z.moveLeft
  else if ch = keyRight then z.moveRight
  else if ch = keyDc then z.deleteRight
  else if ch = keyHome then z.home
  else if ch = keyEnd then z.toEnd
  else z

/-- `w` took the line from `z` to `z'` as it should. -/
def Wch.Handled (z z' : Zipper WChar) : Wch → Prop
  | .err => z' = z
  | .char ch => iswprint ch = true → z' = z.insert ch
  | .key ch _ => z' = functionKey z ch

/-- What is read up to the newline. -/
def typed (ws : List Wch) : List Wch := ws.takeWhile fun w => decide (w.code ≠ some newline)

/-- Every event that `PromptInput` reads before the newline is handled as it should. -/
def KeysApart (ws : List Wch) : Prop :=
  ∀ pre w, pre ++ [w] <+: typed ws → ∃ z z',
    promptInput iswprint u true (pre.map fun w => (true, w)) = .testing (lineOf z) ∧
    promptInput iswprint u true ((pre ++ [w]).map fun w => (true, w)) = .testing (lineOf z') ∧
    w.Handled iswprint z z'

/-- The label the code falls under is one of its kind. -/
def Wch.Dispatched : Wch → Prop
  | .err => True
  | .char ch => iswprint ch = true → label ch = .default
  | .key ch _ => label ch = .default → iswprint ch = false

section apart

variable {iswprint : WChar → Bool} {u : Utf8}

theorem lineOf_injective : Function.Injective lineOf := by
  intro z z' h
  have htext : z.text = z'.text := congrArg Line.input h
  have hpos : z.pos = z'.pos := congrArg Line.cursorPos h
  ext1
  · rw [← z.text_take, ← z'.text_take, htext, hpos]
  · rw [← z.text_drop, ← z'.text_drop, htext, hpos]

/-- Only the `default` case makes the line longer. -/
theorem referenceKey_length {z : Zipper WChar} {ch : WChar} (h : label ch ≠ .default) :
    (referenceKey iswprint z ch).text.length ≤ z.text.length := by
  unfold referenceKey
  cases hl : label ch with
  | backspace => simp [Zipper.deleteLeft, Zipper.text]
  | left => exact (congrArg List.length z.moveLeft_text).le
  | right => exact (congrArg List.length z.moveRight_text).le
  | vertical => exact le_rfl
  | dc => simp [Zipper.deleteRight, Zipper.text]
  | home => exact (congrArg List.length z.home_text).le
  | «end» => exact (congrArg List.length z.toEnd_text).le
  | default => exact absurd hl h

theorem insert_length (z : Zipper WChar) (ch : WChar) :
    (z.insert ch).text.length = z.text.length + 1 := by
  simp [Zipper.insert, Zipper.text]
  omega

/-- The codes that fall under a label. -/
theorem label_spec (ch : WChar) :
    match label ch with
    | .backspace => ch = keyBackspace ∨ ch = 127 ∨ ch = 8
    | .left => ch = keyLeft
    | .right => ch = keyRight
    | .vertical => ch = keyUp ∨ ch = keyDown
    | .dc => ch = keyDc
    | .home => ch = keyHome
    | .end => ch = keyEnd
    | .default => ch ≠ keyBackspace ∧ ch ≠ keyLeft ∧ ch ≠ keyRight ∧ ch ≠ keyDc ∧ ch ≠ keyHome ∧
        ch ≠ keyEnd := by
  unfold label
  split_ifs with hb hl hr hv hd hh he
  all_goals first | assumption | exact ⟨fun h => hb (.inl h), hl, hr, hd, hh, he⟩

theorem functionKey_default {z : Zipper WChar} {ch : WChar} (h : label ch = .default) :
    functionKey z ch = z := by
  have hch := label_spec ch
  simp only [h] at hch
  obtain ⟨hb, hl, hr, hd, hh, he⟩ := hch
  rw [functionKey, if_neg hb, if_neg hl, if_neg hr, if_neg hd, if_neg hh, if_neg he]

/-- A function key that has a label is handled by its case. -/
theorem referenceKey_functionKey {z : Zipper WChar} {ch : WChar} (hkey : keyMin ≤ ch)
    (h : label ch ≠ .default) : referenceKey iswprint z ch = functionKey z ch := by
  have hch := label_spec ch
  rw [referenceKey]
  cases hlabel : label ch with
  | backspace =>
    simp only [hlabel] at hch
    -- the characters 127 and 8 are no function keys
    have hlt : 127 < keyMin ∧ 8 < keyMin := by decide
    obtain rfl : ch = keyBackspace := by
      rcases hch with h' | rfl | rfl
      · exact h'
      · exact absurd hlt.1 (not_lt.mpr hkey)
      · exact absurd hlt.2 (not_lt.mpr hkey)
    rfl
  | vertical =>
    simp only [hlabel] at hch
    rcases hch with rfl | rfl <;> rfl
  | left | right | dc | home | «end» =>
    simp only [hlabel] at hch
    subst hch
    rfl
  | default => exact absurd hlabel h

/-- STEP: an event is handled as it should exactly when its label is one of its kind. -/
theorem handled_iff (z : Zipper WChar) (w : Wch) :
    w.Handled iswprint z ((w.code.map (referenceKey iswprint z)).getD z) ↔
      w.Dispatched iswprint := by
  cases w with
  | err => exact iff_of_true rfl trivial
  | char ch =>
    refine imp_congr_right fun hprint => ⟨fun h => ?_, fun h => ?_⟩
    · by_contra hlabel
      have hle := @referenceKey_length iswprint z ch hlabel
      have hlen := congrArg (fun z : Zipper WChar => z.text.length) h
      simp only [Wch.code, Option.map_some, Option.getD_some, insert_length] at hlen
      omega
    · simp [Wch.code, referenceKey, h, hprint]
  | key ch hkey =>
    by_cases hlabel : label ch = .default
    · have hkeep : functionKey z ch = z := functionKey_default hlabel
      cases hprint : iswprint ch with
      | false => simp [Wch.Handled, Wch.Dispatched, Wch.code, referenceKey, hlabel, hprint, hkeep]
      | true =>
        refine iff_of_false (fun h => ?_) (by simp [Wch.Dispatched, hlabel, hprint])
        have hlen := congrArg (fun z : Zipper WChar => z.text.length) (h.trans hkeep)
        simp [Wch.code, referenceKey, hlabel, hprint, insert_length] at hlen
    · exact iff_of_true (referenceKey_functionKey hkey hlabel) fun h => absurd h hlabel

theorem code_of_typed {ws : List Wch} {w : Wch} (h : w ∈ typed ws) : w.code ≠ some newline := by
  simpa using List.mem_takeWhile_imp h

/-- APART: every event is handled as it should exactly when the label of each event is one of its
    kind. -/
theorem keys_apart (ws : List Wch) :
    KeysApart iswprint u ws ↔ ∀ w ∈ typed ws, w.Dispatched iswprint := by
  have hline : ∀ {vs}, vs <+: typed ws → promptInput iswprint u true (vs.map fun w => (true, w)) =
      .testing (lineOf (reference iswprint vs)) := fun h =>
    promptInput_testing _ fun w hw => code_of_typed (h.subset hw)
  constructor
  · intro h w hw
    obtain ⟨pre, post, hsplit⟩ := List.append_of_mem hw
    have hpre : pre ++ [w] <+: typed ws := ⟨post, by rw [hsplit, ← List.append_cons]⟩
    obtain ⟨z, z', hz, hz', hhandled⟩ := h pre w hpre
    rw [hline ((List.prefix_append _ _).trans hpre), Prompt.testing.injEq] at hz
    rw [hline hpre, Prompt.testing.injEq, reference_concat] at hz'
    rw [← lineOf_injective hz', ← lineOf_injective hz] at hhandled
    exact (handled_iff _ w).mp hhandled
  · intro h pre w hpre
    refine ⟨_, _, hline ((List.prefix_append _ _).trans hpre), hline hpre, ?_⟩
    rw [reference_concat]
    exact (handled_iff _ w).mpr (h w (hpre.subset (by simp)))

end apart

/-- ASCII and the letters of Latin Extended-A. -/
def latinPrint (ch : WChar) : Bool := decide (32 ≤ ch ∧ ch < 127 ∨ 256 ≤ ch ∧ ch < 384)

/-- The letter 'ą' moves the cursor, so it cannot be entered; and F1 inserts 'ĉ'. -/
theorem key_letters :
    (promptInput latinPrint .core true [(true, .char 261), (true, .char newline)] =
        .returned (some []) true ∧
      ¬KeysApart latinPrint .core [.char 261, .char newline]) ∧
    promptInput latinPrint .core true [(true, .key 265 (by decide))] = .testing ⟨[265], 1⟩ ∧
      ¬KeysApart latinPrint .core [.key 265 (by decide), .char newline] := by
  have hfails : ∀ {w : Wch} {z' : Zipper WChar} {rest : List Wch}, [w] <+: typed (w :: rest) →
      promptInput latinPrint .core true [(true, w)] = .testing (lineOf z') →
      ¬w.Handled latinPrint .empty z' → ¬KeysApart latinPrint .core (w :: rest) := by
    intro w z' rest hpre hrun hnot h
    obtain ⟨y, y', hy, hy', hhandled⟩ := h [] w hpre
    have hempty : lineOf .empty = lineOf y := Prompt.testing.inj hy
    have hline : lineOf z' = lineOf y' := Prompt.testing.inj (hrun.symm.trans hy')
    rw [← lineOf_injective hempty, ← lineOf_injective hline] at hhandled
    exact hnot hhandled
  refine ⟨⟨rfl, @hfails _ .empty _ (by decide) rfl ?_⟩,
    rfl, @hfails _ ⟨[265], []⟩ _ (by decide) rfl ?_⟩
  · exact fun h => absurd (h rfl) (by decide)
  · show ¬(⟨[265], []⟩ : Zipper WChar) = functionKey .empty 265
    decide

end CliChat
