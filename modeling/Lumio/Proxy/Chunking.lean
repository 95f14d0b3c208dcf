import Lumio.Proxy.Terminal

/-!
# Pieces of a stream

However the bytes of a stream are split into pieces, the converter reads the same blocks, and writes the same up to the
first terminal event.
-/

namespace Lumio.Proxy

/-! ## Blocks of a growing buffer -/

theorem takeSseBlock_cons (c : Char) (text : Text) :
    takeSseBlock (c :: text) =
      if ['\n', '\n'].isPrefixOf (c :: text) then some ([], (c :: text).drop 2)
      else if ['\r', '\n', '\r', '\n'].isPrefixOf (c :: text) then some ([], (c :: text).drop 4)
      else (takeSseBlock text).map fun found => (c :: found.1, found.2) := by
  unfold takeSseBlock
  simp only [Text.find]
  by_cases hlf : ['\n', '\n'].isPrefixOf (c :: text)
  · rw [if_pos hlf, if_pos hlf]
    generalize (if ['\r', '\n', '\r', '\n'].isPrefixOf (c :: text) then some 0
      else (Text.find ['\r', '\n', '\r', '\n'] text).map (· + 1)) = crlf
    cases crlf with
    | none => rfl
    | some crlf => simp
  · rw [if_neg hlf, if_neg hlf]
    by_cases hcrlf : ['\r', '\n', '\r', '\n'].isPrefixOf (c :: text)
    · rw [if_pos hcrlf, if_pos hcrlf]
      cases Text.find ['\n', '\n'] text with
      | none => rfl
      | some lf => simp
    · rw [if_neg hcrlf, if_neg hcrlf]
      cases Text.find ['\n', '\n'] text with
      | none =>
        cases Text.find ['\r', '\n', '\r', '\n'] text with
        | none => rfl
        | some crlf => rfl
      | some lf =>
        cases Text.find ['\r', '\n', '\r', '\n'] text with
        | none => rfl
        | some crlf =>
          simp only [Option.map_some, Nat.add_le_add_iff_right]
          split <;> rfl

variable {text : Text}

theorem takeSseBlock_shortens {block rest : Text} (h : takeSseBlock text = some (block, rest)) :
    rest.length < text.length := by
  induction text generalizing block with
  | nil => cases h
  | cons c text ih =>
    rw [takeSseBlock_cons] at h
    split at h
    · cases h
      simp only [List.length_drop, List.length_cons]
      omega
    · split at h
      · cases h
        simp only [List.length_drop, List.length_cons]
        omega
      · obtain ⟨found, hfound, heq⟩ := Option.map_eq_some_iff.mp h
        cases heq
        exact (ih hfound).trans (Nat.lt_succ_self _)

theorem takeSseBlock_lf (text : Text) : takeSseBlock ('\n' :: '\n' :: text) = some ([], text) := by
  simp [takeSseBlock_cons]

theorem takeSseBlock_crlf (text : Text) : takeSseBlock ('\r' :: '\n' :: '\r' :: '\n' :: text) = some ([], text) := by
  simp [takeSseBlock_cons]

theorem takeSseBlock_skip {c : Char} (hlf : ¬ ['\n', '\n'] <+: c :: text)
    (hcrlf : ¬ ['\r', '\n', '\r', '\n'] <+: c :: text) :
    takeSseBlock (c :: text) = (takeSseBlock text).map fun found => (c :: found.1, found.2) := by
  rw [takeSseBlock_cons, if_neg (by rwa [List.isPrefixOf_iff_prefix]), if_neg (by rwa [List.isPrefixOf_iff_prefix])]

theorem takeSseBlock_short {found : Text × Text} (h : takeSseBlock text = some found) (hshort : text.length ≤ 2) :
    text = ['\n', '\n'] := by
  match text with
  | [] => cases h
  | [c] => simp [takeSseBlock, Text.find] at h
  | [c, d] =>
    by_cases hlf : ['\n', '\n'] <+: [c, d]
    · exact (hlf.eq_of_length rfl).symm
    · rw [takeSseBlock_skip hlf fun hcrlf => absurd hcrlf.length_le (by simp)] at h
      simp [takeSseBlock, Text.find] at h
  | _ :: _ :: _ :: _ => simp at hshort

/-- Where the first block ends does not depend on what follows it: no blank line across the end of the buffer begins
before a complete one in it. -/
theorem takeSseBlock_stable {block rest : Text} (h : takeSseBlock text = some (block, rest)) (more : Text) :
    takeSseBlock (text ++ more) = some (block, rest ++ more) := by
  induction text generalizing block with
  | nil => cases h
  | cons c text ih =>
    by_cases hlf : ['\n', '\n'] <+: c :: text
    · obtain ⟨tail, htail⟩ := hlf
      rw [← htail] at h ⊢
      cases (takeSseBlock_lf tail).symm.trans h
      exact takeSseBlock_lf (rest ++ more)
    by_cases hcrlf : ['\r', '\n', '\r', '\n'] <+: c :: text
    · obtain ⟨tail, htail⟩ := hcrlf
      rw [← htail] at h ⊢
      cases (takeSseBlock_crlf tail).symm.trans h
      exact takeSseBlock_crlf (rest ++ more)
    rw [takeSseBlock_skip hlf hcrlf] at h
    obtain ⟨found, hfound, heq⟩ := Option.map_eq_some_iff.mp h
    cases heq
    have hlonger : c :: text <+: c :: text ++ more := List.prefix_append _ _
    have hlength : 1 ≤ text.length := Nat.one_le_of_lt (takeSseBlock_shortens hfound)
    have hlf' : ¬ ['\n', '\n'] <+: c :: text ++ more := fun h' =>
      hlf (List.prefix_of_prefix_length_le h' hlonger (by simpa using hlength))
    have hcrlf' : ¬ ['\r', '\n', '\r', '\n'] <+: c :: text ++ more := by
      intro h'
      by_cases hshort : text.length ≤ 2
      · rw [takeSseBlock_short hfound hshort] at h'
        simp at h'
      · exact hcrlf (List.prefix_of_prefix_length_le h' hlonger (by simp only [List.length_cons, List.length_nil]; omega))
    rw [List.cons_append] at hlf' hcrlf' ⊢
    rw [takeSseBlock_skip hlf' hcrlf', ih hfound]
    rfl

/-- Blocks are cut off the front of the buffer. -/
def sseBlocks : Cutter Char Text where
  cut := takeSseBlock
  shortens := takeSseBlock_shortens
  stable := takeSseBlock_stable

/-! ## Up to the first terminal event -/

def Sse.isTerminal : Sse → Bool
  | event e => e.isTerminal
  | doneMarker => false

def untilTerminal : List Sse → List Sse
  | [] => []
  | sse :: output => if sse.isTerminal then [sse] else sse :: untilTerminal output

theorem untilTerminal_append {output : List Sse} (h : output.any Sse.isTerminal = true) (more : List Sse) :
    untilTerminal (output ++ more) = untilTerminal output := by
  induction output with
  | nil => cases h
  | cons sse output ih =>
    simp only [List.cons_append, untilTerminal]
    split
    · rfl
    · rename_i hplain
      rw [List.any_cons, Bool.or_eq_true] at h
      rw [ih (h.resolve_left hplain)]

/-! ## Reading blocks -/

namespace ChatSseToResponsesConverter

variable [SerdeJson] {c : ChatSseToResponsesConverter}

/-- Reads a block, unless it is blank or the converter has failed. -/
def readNext (block : Text) : Emit ChatSseToResponsesConverter Sse :=
  Emit.onlyIf (fun c => !(c.failed || (Text.trim block).isEmpty)) (handleBlock block)

/-- A converter without the input it has not read yet. -/
def core (c : ChatSseToResponsesConverter) : ChatSseToResponsesConverter := { c with buffer := [], utf8Remainder := [] }

theorem readNext_of_failed (h : c.failed = true) (block : Text) : readNext block c = (c, []) :=
  Emit.onlyIf_of_false (by simp [h]) _

variable {block : Text}

theorem readNext_of_blank (h : (Text.trim block).isEmpty = true) : readNext block c = (c, []) :=
  Emit.onlyIf_of_false (by simp [h]) _

theorem readNext_of_open (hopen : c.failed = false) (h : (Text.trim block).isEmpty = false) :
    readNext block c = handleBlock block c :=
  Emit.onlyIf_of_true (by simp [hopen, h]) _

theorem each_readNext_of_failed (h : c.failed = true) (blocks : List Text) : Emit.each readNext blocks c = (c, []) := by
  induction blocks with
  | nil => rfl
  | cons block blocks ih => rw [Emit.each_cons, Emit.seq_apply, readNext_of_failed h, ih]; rfl

theorem handleBlock_core (block : Text) (c : ChatSseToResponsesConverter) :
    handleBlock block c.core = ((handleBlock block c).1.core, (handleBlock block c).2) := by
  unfold handleBlock
  cases readBlock block <;> rfl

theorem handleBlock_input (block : Text) (c : ChatSseToResponsesConverter) :
    (handleBlock block c).1.buffer = c.buffer ∧ (handleBlock block c).1.utf8Remainder = c.utf8Remainder := by
  unfold handleBlock
  cases readBlock block <;> exact ⟨rfl, rfl⟩

theorem handleBlock_failed (hopen : c.failed = false) (h : (handleBlock block c).1.failed = true) :
    (handleBlock block c).2.any Sse.isTerminal = true := by
  unfold handleBlock at h ⊢
  cases hblock : readBlock block with
  | error message errorType => rfl
  | ignored => rw [hblock] at h; rw [hopen] at h; cases h
  | done => rw [hblock] at h; exact absurd (h.symm.trans hopen) (by simp)
  | chunk chunk => rw [hblock] at h; exact absurd (h.symm.trans hopen) (by simp)

theorem readNext_failed (hopen : c.failed = false) (h : (readNext block c).1.failed = true) :
    (readNext block c).2.any Sse.isTerminal = true := by
  cases hblank : (Text.trim block).isEmpty with
  | true => rw [readNext_of_blank hblank, hopen] at h; cases h
  | false =>
    rw [readNext_of_open hopen hblank] at h ⊢
    exact handleBlock_failed hopen h

theorem each_readNext_failed {blocks : List Text} (hopen : c.failed = false)
    (h : (Emit.each readNext blocks c).1.failed = true) :
    (Emit.each readNext blocks c).2.any Sse.isTerminal = true := by
  induction blocks generalizing c with
  | nil => rw [Emit.each_nil, hopen] at h; cases h
  | cons block blocks ih =>
    rw [Emit.each_cons, Emit.seq_apply] at h ⊢
    rw [List.any_append, Bool.or_eq_true]
    cases hfailed : (readNext block c).1.failed with
    | true => exact .inl (readNext_failed hopen hfailed)
    | false => exact .inr (ih hfailed h)

structure Drained (before after : ChatSseToResponsesConverter) (output : List Sse) : Prop where
  read : (after.core, output) = Emit.each readNext (sseBlocks.blocks before.buffer).1 before.core
  remainder : after.utf8Remainder = before.utf8Remainder
  buffer : after.failed = false → after.buffer = (sseBlocks.blocks before.buffer).2

theorem drain_drained {fuel : Nat} (hopen : c.failed = false) (hfuel : c.buffer.length ≤ fuel) :
    Drained c (drain fuel c).1 (drain fuel c).2 := by
  induction fuel generalizing c with
  | zero =>
    have hnil : c.buffer = [] := List.length_eq_zero_iff.mp (Nat.le_zero.mp hfuel)
    have hblocks : sseBlocks.blocks c.buffer = ([], c.buffer) := by
      rw [hnil]
      rfl
    exact ⟨by rw [hblocks]; rfl, rfl, fun _ => by rw [hblocks]; rfl⟩
  | succ fuel ih =>
    unfold drain
    cases hcut : takeSseBlock c.buffer with
    | none =>
      have hblocks := Cutter.blocks_of_none (C := sseBlocks) hcut
      exact ⟨by rw [hblocks]; rfl, rfl, fun _ => by rw [hblocks]⟩
    | some found =>
      obtain ⟨block, rest⟩ := found
      have hblocks := Cutter.blocks_of_some (C := sseBlocks) hcut
      have hshort : rest.length < c.buffer.length := takeSseBlock_shortens hcut
      have hcore : ({ c with buffer := rest } : ChatSseToResponsesConverter).core = c.core := rfl
      have hinput := handleBlock_input block { c with buffer := rest }
      have hhandle := handleBlock_core block { c with buffer := rest }
      dsimp only
      cases hblank : (Text.trim block).isEmpty with
      | true =>
        rw [if_pos rfl]
        have hrest := @ih { c with buffer := rest } hopen (by dsimp only; omega)
        refine ⟨?_, hrest.remainder, fun h => ?_⟩
        · rw [hrest.read, hblocks, Emit.each_cons, Emit.seq_apply, readNext_of_blank hblank]
          rfl
        · rw [hrest.buffer h, hblocks]
      | false =>
        have hread : readNext block c.core = handleBlock block c.core := readNext_of_open hopen hblank
        rw [if_neg Bool.false_ne_true]
        cases hfailed : (handleBlock block { c with buffer := rest }).1.failed with
        | true =>
          rw [if_pos rfl]
          refine ⟨?_, hinput.2, fun h => absurd (h.symm.trans hfailed) (by simp)⟩
          rw [hblocks, Emit.each_cons, Emit.seq_apply, hread, ← hcore, hhandle,
            each_readNext_of_failed (c := (handleBlock block { c with buffer := rest }).1.core) hfailed, List.append_nil]
        | false =>
          rw [if_neg Bool.false_ne_true]
          have hrest := ih hfailed (by rw [hinput.1]; dsimp only; omega)
          have hread' := hrest.read
          rw [hinput.1] at hread'
          refine ⟨?_, hrest.remainder.trans hinput.2, fun h => ?_⟩
          · rw [hblocks, Emit.each_cons, Emit.seq_apply, hread, ← hcore, hhandle, ← hread']
          · rw [hrest.buffer h, hinput.1, hblocks]

/-! ## Pushing pieces -/

def ideal (text : Text) (c : ChatSseToResponsesConverter) : ChatSseToResponsesConverter × List Sse :=
  Emit.each readNext (sseBlocks.blocks text).1 c

theorem ideal_append (text more : Text) (c : ChatSseToResponsesConverter) :
    ideal (text ++ more) c =
      Emit.seq (ideal text) (Emit.each readNext (sseBlocks.blocks ((sseBlocks.blocks text).2 ++ more)).1) c := by
  unfold ideal
  rw [Cutter.blocks_append]
  exact Emit.each_append _ _ _ c

/-- The converter has written what it would have written for the text as a whole, or that with more after a failure. -/
inductive Follows (c₀ : ChatSseToResponsesConverter) (text : Text) (remainder : List UInt8)
    (c : ChatSseToResponsesConverter) (output : List Sse) : Prop where
  | even (opened : c.failed = false) (read : (c.core, output) = ideal text c₀)
      (buffer : c.buffer = (sseBlocks.blocks text).2) (rest : c.utf8Remainder = remainder)
  | failed (stopped : (ideal text c₀).1.failed = true) {tail : List Sse} (read : output = (ideal text c₀).2 ++ tail)

theorem ideal_of_failed {text : Text} (h : (ideal text c).1.failed = true) (more : Text) :
    ideal (text ++ more) c = ideal text c := by
  rw [ideal_append, Emit.seq_apply, each_readNext_of_failed h, List.append_nil]

section Push

variable {c₀ : ChatSseToResponsesConverter} {text : Text} {remainder bytes : List UInt8} {output : List Sse}

omit [SerdeJson] in
theorem append_eq (hidle : Utf8.decode c.utf8Remainder = ([], c.utf8Remainder))
    (hvalid : ∀ n, Utf8.front (Utf8.decode (c.utf8Remainder ++ bytes)).2 ≠ .invalid n) :
    c.append bytes = { c with
      buffer := c.buffer ++ (Utf8.decode (c.utf8Remainder ++ bytes)).1
      utf8Remainder := (Utf8.decode (c.utf8Remainder ++ bytes)).2 } := by
  unfold append appendUtf8Safe
  cases bytes with
  | nil => simp [hidle]
  | cons b bytes =>
    simp only [List.isEmpty_cons, Bool.false_eq_true, if_false]

theorem Follows.pushBytes (h : Follows c₀ text remainder c output)
    (hidle : Utf8.decode remainder = ([], remainder))
    (hvalid : ∀ n, Utf8.front (Utf8.decode (remainder ++ bytes)).2 ≠ .invalid n) :
    Follows c₀ (text ++ (Utf8.decode (remainder ++ bytes)).1) (Utf8.decode (remainder ++ bytes)).2
      (pushBytes bytes c).1 (output ++ (pushBytes bytes c).2) := by
  cases h with
  | failed hstopped hread =>
    rename_i tail
    have hsame := ideal_of_failed hstopped (Utf8.decode (remainder ++ bytes)).1
    have hall : output ++ (ChatSseToResponsesConverter.pushBytes bytes c).2 =
        (ideal text c₀).2 ++ (tail ++ (ChatSseToResponsesConverter.pushBytes bytes c).2) := by
      rw [hread, List.append_assoc]
    rw [← hsame] at hstopped hall
    exact .failed hstopped hall
  | even hopen hread hbuffer hrest =>
    subst hrest
    have happend := append_eq hidle hvalid
    have hdrained : Drained (c.append bytes) (ChatSseToResponsesConverter.pushBytes bytes c).1
        (ChatSseToResponsesConverter.pushBytes bytes c).2 :=
      drain_drained (c := c.append bytes) (by rw [happend]; exact hopen) (Nat.le_refl _)
    have hlonger : (c.append bytes).buffer = c.buffer ++ (Utf8.decode (c.utf8Remainder ++ bytes)).1 := by
      rw [happend]
    have hcore : (c.append bytes).core = c.core := rfl
    have hnow : ((ChatSseToResponsesConverter.pushBytes bytes c).1.core,
        output ++ (ChatSseToResponsesConverter.pushBytes bytes c).2) =
        ideal (text ++ (Utf8.decode (c.utf8Remainder ++ bytes)).1) c₀ := by
      have hmore := hdrained.read
      rw [hcore, hlonger] at hmore
      rw [ideal_append, Emit.seq_apply, ← hread, ← hbuffer, ← hmore]
    cases hfailed : (ChatSseToResponsesConverter.pushBytes bytes c).1.failed with
    | true =>
      have hstopped : (ideal (text ++ (Utf8.decode (c.utf8Remainder ++ bytes)).1) c₀).1.failed = true := by
        rw [← hnow]
        exact hfailed
      have hall : output ++ (ChatSseToResponsesConverter.pushBytes bytes c).2 =
          (ideal (text ++ (Utf8.decode (c.utf8Remainder ++ bytes)).1) c₀).2 ++ [] := by
        rw [← hnow, List.append_nil]
      exact .failed hstopped hall
    | false =>
      refine .even hfailed hnow ?_ ?_
      · have hrest := hdrained.buffer hfailed
        rw [hlonger] at hrest
        rw [Cutter.blocks_append, ← hbuffer]
        exact hrest
      · exact hdrained.remainder.trans (by rw [happend])

theorem Follows.pushAll {pieces : List (List UInt8)} {before : List UInt8}
    (h : Follows c₀ (Utf8.decode before).1 (Utf8.decode before).2 c output)
    (hvalid : Utf8.Valid (before ++ pieces.flatten)) :
    ∃ remainder, Follows c₀ (Utf8.decode (before ++ pieces.flatten)).1 remainder (pushAll pieces c).1
      (output ++ (pushAll pieces c).2) := by
  induction pieces generalizing before c output with
  | nil =>
    refine ⟨(Utf8.decode before).2, ?_⟩
    simpa [ChatSseToResponsesConverter.pushAll] using h
  | cons bytes pieces ih =>
    rw [List.flatten_cons, ← List.append_assoc] at hvalid ⊢
    have hdecode := Utf8.decode_append before bytes
    have hfronts : ∀ n, Utf8.front (Utf8.decode ((Utf8.decode before).2 ++ bytes)).2 ≠ .invalid n := by
      intro n
      have hfront := Utf8.Valid.front_rest hvalid n
      rwa [hdecode] at hfront
    have hnext := h.pushBytes (Utf8.decode_rest before) hfronts
    have hnow : Follows c₀ (Utf8.decode (before ++ bytes)).1 (Utf8.decode (before ++ bytes)).2
        (ChatSseToResponsesConverter.pushBytes bytes c).1 (output ++ (ChatSseToResponsesConverter.pushBytes bytes c).2) := by
      rw [hdecode]
      exact hnext
    obtain ⟨remainder, hrest⟩ := ih hnow hvalid
    refine ⟨remainder, ?_⟩
    rw [List.append_assoc output] at hrest
    exact hrest

theorem Follows.finish (h : Follows c₀ text remainder c output) (hstart : c₀.failed = false) :
    untilTerminal (output ++ (finish c).2) = untilTerminal ((ideal text c₀).2 ++ (finish (ideal text c₀).1).2) := by
  cases h with
  | failed hstopped hread =>
    have hterminal : (ideal text c₀).2.any Sse.isTerminal = true := each_readNext_failed hstart hstopped
    rw [hread, List.append_assoc, untilTerminal_append hterminal, untilTerminal_append hterminal]
  | even hopen hread hbuffer hrest =>
    rw [← hread, finish_output, finish_output]
    rfl

end Push

end ChatSseToResponsesConverter

open ChatSseToResponsesConverter

section Split

variable [SerdeJson]

theorem stream_eq_ideal (request : Option Value) {pieces : List (List UInt8)} (h : Utf8.Valid pieces.flatten) :
    untilTerminal (stream pieces .finish (.start request)) =
      untilTerminal (Emit.seq (ideal (Utf8.decode pieces.flatten).1) finish (.start request)).2 := by
  have hstart : Follows (.start request) (Utf8.decode []).1 (Utf8.decode []).2 (.start request) [] :=
    .even rfl rfl rfl rfl
  obtain ⟨remainder, hend⟩ := hstart.pushAll h
  exact hend.finish rfl

/-- The pieces in which a valid text arrives make no difference up to the first terminal event. -/
theorem chunking_independent (request : Option Value) (pieces : List (List UInt8)) (h : Utf8.Valid pieces.flatten) :
    untilTerminal (stream pieces .finish (.start request)) =
      untilTerminal (stream [pieces.flatten] .finish (.start request)) := by
  rw [stream_eq_ideal request h, stream_eq_ideal request (by simpa using h), List.flatten_singleton]

end Split

/-- Two events with line breaks of both kinds, cut in the middle of a character and of each blank line. -/
def splitPieces : List (List UInt8) :=
  [asciiBytes ": " ++ [0xc3], [0xa9] ++ asciiBytes "\r\n\r", asciiBytes "\ndata: \x7b\"id\":\"a\"\x7d\n",
    asciiBytes "\ndata: [DONE]\n\n"]

theorem chunking_of_splitPieces :
    Utf8.Valid splitPieces.flatten ∧
    untilTerminal (@stream sampleJson splitPieces .finish (.start none)) =
      untilTerminal (@stream sampleJson [splitPieces.flatten] .finish (.start none)) := by
  have hvalid : (Utf8.decode splitPieces.flatten).2 = [] := by
    decide +kernel
  exact ⟨hvalid, @chunking_independent sampleJson none splitPieces hvalid⟩

end Lumio.Proxy
