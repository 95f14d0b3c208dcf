import Lumio.Data.Rollouts
import Lumio.Lib.Lines
import Mathlib.Data.List.Forall2

/-!
# What is rewritten of a rollout file

A rewrite sets the provider in the session records of a text. The other lines, the line endings and the rest of the
records stay.
-/

namespace Lumio.Data

open Proxy (Value SerdeJson)

/-! ## Values up to the digits of their numbers -/

mutual

def eraseNumbers : Value → Value
  | .null => .null
  | .bool value => .bool value
  | .number _ _ => .number [] none
  | .string text => .string text
  | .array items => .array (eraseItems items)
  | .object members => .object (eraseMembers members)

def eraseItems : List Value → List Value
  | [] => []
  | item :: items => eraseNumbers item :: eraseItems items

def eraseMembers : List (String × Value) → List (String × Value)
  | [] => []
  | (key, value) :: members => (key, eraseNumbers value) :: eraseMembers members

end

variable {line : Text} (key : String) (segment : Text) (value : Value) (members : List (String × Value))

theorem eraseMembers_eq : eraseMembers members = members.map fun member => (member.1, eraseNumbers member.2) := by
  induction members with
  | nil => rw [eraseMembers, List.map_nil]
  | cons member members ih => rw [eraseMembers, List.map_cons, ih]

theorem get_eraseNumbers : (eraseNumbers value).get key = (value.get key).map eraseNumbers := by
  cases value with
  | object members =>
    simp only [eraseNumbers, Value.get, eraseMembers_eq]
    induction members with
    | nil => rfl
    | cons member members ih =>
      by_cases hkey : member.1 = key
      · simp [hkey]
      · simpa [hkey] using ih
  | null => simp [eraseNumbers, Value.get]
  | bool value => simp [eraseNumbers, Value.get]
  | number text u64 => simp [eraseNumbers, Value.get]
  | string text => simp [eraseNumbers, Value.get]
  | array items => simp [eraseNumbers, Value.get]

theorem asStr_eraseNumbers : (eraseNumbers value).asStr = value.asStr := by
  cases value <;> simp [eraseNumbers, Value.asStr]

theorem str_eraseNumbers : (eraseNumbers value).str key = value.str key := by
  unfold Value.str
  rw [get_eraseNumbers]
  cases value.get key with
  | none => rfl
  | some found => exact asStr_eraseNumbers found

theorem sessionPayload_eraseNumbers (record : Value) :
    sessionPayload (eraseNumbers record) = (sessionPayload record).map eraseMembers := by
  unfold sessionPayload
  rw [str_eraseNumbers, get_eraseNumbers]
  split
  · cases record.get "payload" with
    | none => rfl
    | some payload => cases payload <;> simp [eraseNumbers]
  · rfl

/-! ## The members of a record -/

theorem find?_insertMember_self : (insertMember key value members).find? (·.1 = key) = some (key, value) := by
  unfold insertMember
  by_cases hany : members.any (·.1 = key) = true
  · rw [if_pos hany]
    induction members with
    | nil => cases hany
    | cons member members ih =>
      by_cases hkey : member.1 = key
      · simp [hkey]
      · have hrest : members.any (·.1 = key) = true := by simpa [hkey] using hany
        have htail := ih hrest
        simpa [hkey] using htail
  · rw [if_neg hany]
    have hfind : members.find? (·.1 = key) = none := by
      rw [List.find?_eq_none]
      intro member hmember heq
      exact hany (List.any_eq_true.mpr ⟨member, hmember, heq⟩)
    simp [List.find?_append, hfind]

theorem find?_insertMember_ne {key other : String} (hkey : other ≠ key) (value : Value)
    (members : List (String × Value)) :
    (insertMember key value members).find? (·.1 = other) = members.find? (·.1 = other) := by
  unfold insertMember
  by_cases hany : members.any (·.1 = key) = true
  · rw [if_pos hany]
    clear hany
    induction members with
    | nil => rfl
    | cons member members ih =>
      by_cases hmember : member.1 = key
      · simp [hmember, Ne.symm hkey, ih]
      · by_cases hother : member.1 = other
        · simp [hother, hkey]
        · simp [hmember, hother, ih]
  · rw [if_neg hany]
    simp [List.find?_append, Ne.symm hkey]

theorem get_insertMember_self : (Value.object (insertMember key value members)).get key = some value := by
  simp only [Value.get, find?_insertMember_self, Option.map_some]

theorem get_insertMember_ne {key other : String} (hkey : other ≠ key) (value : Value) (members : List (String × Value)) :
    (Value.object (insertMember key value members)).get other = (Value.object members).get other := by
  simp only [Value.get, find?_insertMember_ne hkey]

def provider (payload : List (String × Value)) : Option Text := (Value.object payload).str "model_provider"

def withProvider (targetProvider : Text) (members payload : List (String × Value)) : Value :=
  .object (insertMember "payload" (.object (insertMember "model_provider" (.string targetProvider) payload)) members)

theorem provider_insertMember (targetProvider : Text) (payload : List (String × Value)) :
    provider (insertMember "model_provider" (.string targetProvider) payload) = some targetProvider := by
  unfold provider Value.str
  rw [get_insertMember_self]
  rfl

theorem sessionPayload_withProvider {members payload : List (String × Value)}
    (h : sessionPayload (.object members) = some payload) (targetProvider : Text) :
    sessionPayload (withProvider targetProvider members payload) =
      some (insertMember "model_provider" (.string targetProvider) payload) := by
  unfold sessionPayload at h ⊢
  unfold withProvider
  rw [get_insertMember_self]
  unfold Value.str at h ⊢
  rw [get_insertMember_ne (by decide)]
  split at h
  · rename_i htype
    rw [if_pos htype]
  · cases h

theorem provider_eraseMembers (payload : List (String × Value)) : provider (eraseMembers payload) = provider payload := by
  have hobject : Value.object (eraseMembers payload) = eraseNumbers (.object payload) := by rw [eraseNumbers]
  unfold provider
  rw [hobject, str_eraseNumbers]

/-! ## Line endings -/

theorem splitLineEnding_append : (splitLineEnding segment).1 ++ (splitLineEnding segment).2 = segment := by
  unfold splitLineEnding
  split
  · rename_i h
    obtain ⟨line, rfl⟩ := List.isSuffixOf_iff_suffix.mp h
    simp
  · split
    · rename_i h
      obtain ⟨line, rfl⟩ := List.isSuffixOf_iff_suffix.mp h
      simp
    · simp

theorem splitLineEnding_crlf (line : Text) : splitLineEnding (line ++ ['\r', '\n']) = (line, ['\r', '\n']) := by
  have hsuffix : "\r\n".toList.isSuffixOf (line ++ ['\r', '\n']) = true :=
    List.isSuffixOf_iff_suffix.mpr (List.suffix_append line ['\r', '\n'])
  have hline : (line ++ ['\r', '\n']).dropLast.dropLast = line := by
    rw [show line ++ ['\r', '\n'] = (line ++ ['\r']) ++ ['\n'] by simp, List.dropLast_concat, List.dropLast_concat]
  unfold splitLineEnding
  rw [if_pos hsuffix, hline]
  rfl

theorem splitLineEnding_lf (h : line.getLast? ≠ some '\r') : splitLineEnding (line ++ ['\n']) = (line, ['\n']) := by
  have hcrlf : ¬"\r\n".toList.isSuffixOf (line ++ ['\n']) = true := by
    intro hsuffix
    obtain ⟨start, hstart⟩ := List.isSuffixOf_iff_suffix.mp hsuffix
    have hparts : (start ++ ['\r']) ++ ['\n'] = line ++ ['\n'] := by
      rw [List.append_assoc]
      exact hstart
    have hline := List.append_cancel_right hparts
    exact h (hline ▸ List.getLast?_concat)
  have hlf : "\n".toList.isSuffixOf (line ++ ['\n']) = true :=
    List.isSuffixOf_iff_suffix.mpr (List.suffix_append line ['\n'])
  unfold splitLineEnding
  rw [if_neg hcrlf, if_pos hlf, List.dropLast_concat]
  rfl

theorem splitLineEnding_last (h : '\n' ∉ line) : splitLineEnding line = (line, []) := by
  have hcrlf : ¬"\r\n".toList.isSuffixOf line = true := by
    intro hsuffix
    exact h ((List.isSuffixOf_iff_suffix.mp hsuffix).subset (List.mem_cons_of_mem '\r' List.mem_cons_self))
  have hlf : ¬"\n".toList.isSuffixOf line = true := by
    intro hsuffix
    exact h ((List.isSuffixOf_iff_suffix.mp hsuffix).subset List.mem_cons_self)
  unfold splitLineEnding
  rw [if_neg hcrlf, if_neg hlf]

theorem lineEnding_cases :
    (splitLineEnding segment).2 = ['\r', '\n'] ∨ (splitLineEnding segment).2 = ['\n'] ∨
      (splitLineEnding segment).2 = [] := by
  unfold splitLineEnding
  split
  · exact .inl rfl
  · split
    · exact .inr (.inl rfl)
    · exact .inr (.inr rfl)

theorem splitLineEnding_of_ending (hfeed : '\n' ∉ line) (hreturn : '\r' ∉ line) (segment : Text) :
    splitLineEnding (line ++ (splitLineEnding segment).2) = (line, (splitLineEnding segment).2) := by
  rcases lineEnding_cases segment with h | h | h
  · rw [h, splitLineEnding_crlf]
  · rw [h, splitLineEnding_lf fun hlast => hreturn (List.mem_of_getLast? hlast)]
  · rw [h, List.append_nil, splitLineEnding_last hfeed]

/-! ## The pass over the lines -/

section Pass

variable [SerdeJson]

def sessionRecord (line : Text) : Option (List (String × Value) × List (String × Value)) :=
  match SerdeJson.fromStr line with
  | some (.object members) => (sessionPayload (.object members)).map fun payload => (members, payload)
  | _ => none

def rewritten (targetProvider line : Text) : Option Value :=
  match sessionRecord line with
  | some (members, payload) =>
    if provider payload = some targetProvider then none else some (withProvider targetProvider members payload)
  | none => none

def nextLine (targetProvider line : Text) : Text := ((rewritten targetProvider line).map SerdeJson.toText).getD line

def nextSegment (targetProvider segment : Text) : Text :=
  nextLine targetProvider (splitLineEnding segment).1 ++ (splitLineEnding segment).2

def lineMeaning (line : Text) : Text ⊕ Value :=
  match SerdeJson.fromStr line with
  | some record => .inr record
  | none => .inl line

def meaning (text : Text) : List ((Text ⊕ Value) × Text) :=
  (Text.splitInclusive text).map fun segment => (lineMeaning (splitLineEnding segment).1, (splitLineEnding segment).2)

/-- What is relied on of `serde_json`: a blank line is no value, a value is printed without control characters, and a
record that was read is read back after its provider is set, up to the digits of its numbers. -/
structure ReadsBack (targetProvider : Text) : Prop where
  blank : ∀ line, (Text.trim line).isEmpty = true → SerdeJson.fromStr line = none
  printable : ∀ value, ∀ c ∈ SerdeJson.toText value, ' ' ≤ c
  reads : ∀ line members payload, sessionRecord line = some (members, payload) →
    ∃ record, SerdeJson.fromStr (SerdeJson.toText (withProvider targetProvider members payload)) = some record ∧
      eraseNumbers record = eraseNumbers (withProvider targetProvider members payload)

structure Rewrites (targetProvider before after : Text) : Prop where
  ending : (splitLineEnding after).2 = (splitLineEnding before).2
  other : sessionRecord (splitLineEnding before).1 = none → after = before
  session : ∀ members payload, sessionRecord (splitLineEnding before).1 = some (members, payload) →
    provider payload = some targetProvider ∧ after = before ∨
      provider payload ≠ some targetProvider ∧
        (splitLineEnding after).1 = SerdeJson.toText (withProvider targetProvider members payload) ∧
        ∃ record, SerdeJson.fromStr (splitLineEnding after).1 = some record ∧
          eraseNumbers record = eraseNumbers (withProvider targetProvider members payload)
  target : ∀ members payload, sessionRecord (splitLineEnding after).1 = some (members, payload) →
    provider payload = some targetProvider

variable {targetProvider : Text}

variable {payload : List (String × Value)} {line : Text}

theorem session_same (h : provider payload = some targetProvider) (line : Text) (members : List (String × Value))
    (rewrite : RolloutRewrite) :
    (rewrite.session targetProvider line members payload).2 = line ∧
      (rewrite.session targetProvider line members payload).1.nextText = rewrite.nextText ∧
      (rewrite.session targetProvider line members payload).1.rewriteNeeded = rewrite.rewriteNeeded := by
  have hstr : (Value.object payload).str "model_provider" = some targetProvider := h
  unfold RolloutRewrite.session
  rw [if_pos hstr]
  exact ⟨rfl, rfl, rfl⟩

theorem session_other (h : provider payload ≠ some targetProvider) (line : Text) (members : List (String × Value))
    (rewrite : RolloutRewrite) :
    (rewrite.session targetProvider line members payload).2 =
        SerdeJson.toText (withProvider targetProvider members payload) ∧
      (rewrite.session targetProvider line members payload).1.nextText = rewrite.nextText ∧
      (rewrite.session targetProvider line members payload).1.rewriteNeeded = true := by
  have hstr : ¬(Value.object payload).str "model_provider" = some targetProvider := h
  unfold RolloutRewrite.session
  rw [if_neg hstr]
  exact ⟨rfl, rfl, rfl⟩

theorem line_eq (laws : ReadsBack targetProvider) (line : Text) (rewrite : RolloutRewrite) :
    (rewrite.line targetProvider line).2 = nextLine targetProvider line ∧
      (rewrite.line targetProvider line).1.nextText = rewrite.nextText ∧
      (rewrite.line targetProvider line).1.rewriteNeeded =
        (rewrite.rewriteNeeded || (rewritten targetProvider line).isSome) := by
  unfold RolloutRewrite.line nextLine rewritten sessionRecord
  split
  · rename_i hblank
    rw [laws.blank line hblank]
    simp
  · cases SerdeJson.fromStr line with
    | none => simp
    | some record =>
      cases record with
      | object members =>
        simp only
        cases hpayload : sessionPayload (.object members) with
        | none => simp
        | some payload =>
          simp only [Option.map_some]
          by_cases hprovider : provider payload = some targetProvider
          · rw [if_pos hprovider]
            simpa using session_same hprovider line members rewrite
          · rw [if_neg hprovider]
            simpa using session_other hprovider line members rewrite
      | null => simp
      | bool value => simp
      | number text u64 => simp
      | string text => simp
      | array items => simp

theorem foldl_segment (laws : ReadsBack targetProvider) (segments : List Text) (rewrite : RolloutRewrite) :
    (segments.foldl (RolloutRewrite.segment targetProvider) rewrite).nextText =
        rewrite.nextText ++ (segments.map (nextSegment targetProvider)).flatten ∧
      (segments.foldl (RolloutRewrite.segment targetProvider) rewrite).rewriteNeeded =
        (rewrite.rewriteNeeded ||
          segments.any fun segment => (rewritten targetProvider (splitLineEnding segment).1).isSome) := by
  induction segments generalizing rewrite with
  | nil => simp
  | cons segment segments ih =>
    obtain ⟨hline, htext, hneeded⟩ := line_eq laws (splitLineEnding segment).1 rewrite
    obtain ⟨hrest, hany⟩ := ih (rewrite.segment targetProvider segment)
    rw [List.foldl_cons, hrest, hany]
    simp only [RolloutRewrite.segment, hline, htext, hneeded, List.map_cons, List.flatten_cons, List.any_cons,
      nextSegment, List.append_assoc, Bool.or_assoc, and_self]

/-! ## What is rewritten -/

theorem rewritten_eq_some {record : Value} (h : rewritten targetProvider line = some record) :
    ∃ members payload, sessionRecord line = some (members, payload) ∧ provider payload ≠ some targetProvider ∧
      record = withProvider targetProvider members payload := by
  unfold rewritten at h
  split at h
  · rename_i members payload hrecord
    split_ifs at h with hprovider
    cases h
    exact ⟨members, payload, hrecord, hprovider, rfl⟩
  · cases h

theorem rewritten_eq_none {members : List (String × Value)} (h : rewritten targetProvider line = none)
    (hrecord : sessionRecord line = some (members, payload)) : provider payload = some targetProvider := by
  unfold rewritten at h
  rw [hrecord] at h
  simp only at h
  split_ifs at h with hprovider
  exact hprovider

theorem provider_of_withProvider (laws : ReadsBack targetProvider) {members : List (String × Value)}
    (hrecord : sessionRecord line = some (members, payload)) :
    ∃ members' payload', sessionRecord (SerdeJson.toText (withProvider targetProvider members payload)) =
      some (members', payload') ∧ provider payload' = some targetProvider := by
  obtain ⟨record, hread, herase⟩ := laws.reads line members payload hrecord
  have hpayload : sessionPayload (.object members) = some payload := by
    unfold sessionRecord at hrecord
    split at hrecord
    · obtain ⟨found, hfound, heq⟩ := Option.map_eq_some_iff.mp hrecord
      cases heq
      exact hfound
    · cases hrecord
  have herased := sessionPayload_eraseNumbers record
  rw [herase, sessionPayload_eraseNumbers, sessionPayload_withProvider hpayload targetProvider, Option.map_some] at herased
  obtain ⟨found, hfound, heq⟩ := Option.map_eq_some_iff.mp herased.symm
  have hprovider : provider found = some targetProvider := by
    rw [← provider_eraseMembers found, heq, provider_eraseMembers, provider_insertMember]
  cases record with
  | object next =>
    refine ⟨next, found, ?_, hprovider⟩
    unfold sessionRecord
    rw [hread]
    simp only [hfound, Option.map_some]
  | null => cases hfound
  | bool value => cases hfound
  | number text u64 => cases hfound
  | string text => cases hfound
  | array items => cases hfound

theorem rewritten_nextLine (laws : ReadsBack targetProvider) (line : Text) :
    rewritten targetProvider (nextLine targetProvider line) = none := by
  unfold nextLine
  cases hrewritten : rewritten targetProvider line with
  | none => exact hrewritten
  | some record =>
    obtain ⟨members, payload, hrecord, -, rfl⟩ := rewritten_eq_some hrewritten
    obtain ⟨members', payload', hnext, hprovider⟩ := provider_of_withProvider laws hrecord
    rw [Option.map_some, Option.getD_some]
    unfold rewritten
    rw [hnext]
    exact if_pos hprovider

theorem nextLine_of_none (h : rewritten targetProvider line = none) : nextLine targetProvider line = line := by
  unfold nextLine
  rw [h]
  rfl

theorem not_mem_toText (laws : ReadsBack targetProvider) {c : Char} (hc : c < ' ') (value : Value) :
    c ∉ SerdeJson.toText value := fun hmem => absurd (laws.printable value c hmem) (Char.not_le.mpr hc)

theorem splitLineEnding_nextSegment (laws : ReadsBack targetProvider) (segment : Text) :
    splitLineEnding (nextSegment targetProvider segment) =
      (nextLine targetProvider (splitLineEnding segment).1, (splitLineEnding segment).2) := by
  unfold nextSegment
  cases hrewritten : rewritten targetProvider (splitLineEnding segment).1 with
  | none => rw [nextLine_of_none hrewritten, splitLineEnding_append]
  | some record =>
    have hline : nextLine targetProvider (splitLineEnding segment).1 = SerdeJson.toText record := by
      unfold nextLine
      rw [hrewritten]
      rfl
    rw [hline]
    exact splitLineEnding_of_ending (not_mem_toText laws (by decide) record) (not_mem_toText laws (by decide) record)
      segment

theorem nextSegment_nextSegment (laws : ReadsBack targetProvider) (segment : Text) :
    nextSegment targetProvider (nextSegment targetProvider segment) = nextSegment targetProvider segment := by
  have hsplit := splitLineEnding_nextSegment laws segment
  rw [nextSegment, hsplit, nextLine_of_none (rewritten_nextLine laws _)]
  rfl

theorem segments_map (laws : ReadsBack targetProvider) {segments : List Text} (h : Text.Segments segments) :
    Text.Segments (segments.map (nextSegment targetProvider)) := by
  have hfeed : ∀ line : Text, '\n' ∉ line → '\n' ∉ nextLine targetProvider line := by
    intro line hline
    unfold nextLine
    cases rewritten targetProvider line with
    | none => exact hline
    | some record => exact not_mem_toText laws (by decide) record
  induction h with
  | nil => exact .nil
  | @last line hline hne =>
    rw [List.map_singleton, nextSegment, splitLineEnding_last hline, List.append_nil]
    refine .last (hfeed line hline) fun hnil => ?_
    -- an empty text is no session record
    have hrewritten := rewritten_nextLine laws line
    cases hnext : rewritten targetProvider line with
    | none =>
      rw [nextLine_of_none hnext] at hnil
      exact hne hnil
    | some record =>
      obtain ⟨members, payload, hrecord, -, rfl⟩ := rewritten_eq_some hnext
      obtain ⟨found, hread, -⟩ := laws.reads line members payload hrecord
      have hempty : SerdeJson.toText (withProvider targetProvider members payload) = [] := by
        rw [nextLine, hnext] at hnil
        exact hnil
      rw [hempty, laws.blank [] rfl] at hread
      cases hread
  | @line line rest hline _ ih =>
    have hending : ∃ first, '\n' ∉ first ∧ nextSegment targetProvider (line ++ ['\n']) = first ++ ['\n'] := by
      unfold nextSegment
      by_cases hreturn : line.getLast? = some '\r'
      · obtain ⟨start, rfl⟩ := List.getLast?_eq_some_iff.mp hreturn
        have hstart : '\n' ∉ nextLine targetProvider start := hfeed start fun hmem => hline (List.mem_append_left _ hmem)
        have hcrlf : start ++ ['\r'] ++ ['\n'] = start ++ ['\r', '\n'] := by simp
        rw [hcrlf, splitLineEnding_crlf]
        exact ⟨nextLine targetProvider start ++ ['\r'], by simp [hstart], by simp⟩
      · rw [splitLineEnding_lf hreturn]
        exact ⟨_, hfeed line hline, rfl⟩
    obtain ⟨first, hfirst, hsegment⟩ := hending
    rw [List.map_cons, hsegment]
    exact .line hfirst ih

theorem rewrite_eq (laws : ReadsBack targetProvider) (text : Text) :
    Text.splitInclusive (rewriteRolloutSessionMetaProviders text targetProvider).nextText =
        (Text.splitInclusive text).map (nextSegment targetProvider) ∧
      (rewriteRolloutSessionMetaProviders text targetProvider).rewriteNeeded =
        (Text.splitInclusive text).any fun segment => (rewritten targetProvider (splitLineEnding segment).1).isSome := by
  obtain ⟨htext, hneeded⟩ := foldl_segment laws (Text.splitInclusive text) {}
  constructor
  · unfold rewriteRolloutSessionMetaProviders
    rw [htext, List.nil_append]
    exact (segments_map laws (Text.segments_splitInclusive text)).splitInclusive_flatten
  · unfold rewriteRolloutSessionMetaProviders
    rw [hneeded, Bool.false_or]

theorem rewrites_nextSegment (laws : ReadsBack targetProvider) (segment : Text) :
    Rewrites targetProvider segment (nextSegment targetProvider segment) := by
  have hsplit := splitLineEnding_nextSegment laws segment
  constructor
  case ending => rw [hsplit]
  case other =>
    intro hnone
    have hrewritten : rewritten targetProvider (splitLineEnding segment).1 = none := by
      unfold rewritten
      rw [hnone]
    rw [nextSegment, nextLine_of_none hrewritten, splitLineEnding_append]
  case session =>
    intro members payload hrecord
    rw [hsplit]
    cases hrewritten : rewritten targetProvider (splitLineEnding segment).1 with
    | none =>
      refine .inl ⟨rewritten_eq_none hrewritten hrecord, ?_⟩
      rw [nextSegment, nextLine_of_none hrewritten, splitLineEnding_append]
    | some record =>
      obtain ⟨members', payload', hsame, hprovider, rfl⟩ := rewritten_eq_some hrewritten
      rw [hrecord] at hsame
      cases hsame
      have hline : nextLine targetProvider (splitLineEnding segment).1 =
          SerdeJson.toText (withProvider targetProvider members payload) := by
        rw [nextLine, hrewritten]
        rfl
      refine .inr ⟨hprovider, hline, ?_⟩
      rw [hline]
      exact laws.reads _ members payload hrecord
  case target =>
    intro members payload hrecord
    rw [hsplit] at hrecord
    exact rewritten_eq_none (rewritten_nextLine laws _) hrecord

theorem sessionRecord_of_lineMeaning {other : Text} (h : lineMeaning line = lineMeaning other) :
    sessionRecord line = sessionRecord other := by
  unfold lineMeaning at h
  unfold sessionRecord
  cases hline : SerdeJson.fromStr line with
  | none =>
    cases hother : SerdeJson.fromStr other with
    | none => rfl
    | some record =>
      rw [hline, hother] at h
      cases h
  | some record =>
    cases hother : SerdeJson.fromStr other with
    | none =>
      rw [hline, hother] at h
      cases h
    | some found =>
      rw [hline, hother] at h
      cases h
      rfl

theorem lineMeaning_ne (laws : ReadsBack targetProvider) {segment : Text}
    (h : (rewritten targetProvider (splitLineEnding segment).1).isSome = true) :
    lineMeaning (splitLineEnding (nextSegment targetProvider segment)).1 ≠ lineMeaning (splitLineEnding segment).1 := by
  obtain ⟨record, hrewritten⟩ := Option.isSome_iff_exists.mp h
  obtain ⟨members, payload, hrecord, hprovider, -⟩ := rewritten_eq_some hrewritten
  intro hsame
  have hnext := sessionRecord_of_lineMeaning hsame
  rw [hrecord] at hnext
  exact hprovider ((rewrites_nextSegment laws segment).target members payload hnext)

end Pass

/-! ## An example -/

section Sample

def sampleRecordText : Text := "\x7b\"type\":\"session_meta\",\"payload\":\x7b\"id\":\"a\"\x7d\x7d".toList

def sampleNextText : Text :=
  "\x7b\"type\":\"session_meta\",\"payload\":\x7b\"id\":\"a\",\"model_provider\":\"azure\"\x7d\x7d".toList

def samplePayload : List (String × Value) := [("id", .ofStr "a")]

def sampleMembers : List (String × Value) := [("type", .ofStr "session_meta"), ("payload", .object samplePayload)]

abbrev sampleProvider : Text := "azure".toList

abbrev sampleSerde : SerdeJson where
  fromStr text :=
    if text = sampleRecordText then some (.object sampleMembers)
    else if text = sampleNextText then some (withProvider sampleProvider sampleMembers samplePayload)
    else none
  toText value := if value.str "type" = some "session_meta".toList then sampleNextText else []

theorem sampleSerde_record : @sessionRecord sampleSerde sampleRecordText = some (sampleMembers, samplePayload) := rfl

theorem sampleSerde_next : @sessionRecord sampleSerde sampleNextText =
    some (insertMember "payload" (.object (insertMember "model_provider" (.string sampleProvider) samplePayload))
      sampleMembers, insertMember "model_provider" (.string sampleProvider) samplePayload) := rfl

theorem sampleSerde_readsBack : @ReadsBack sampleSerde sampleProvider := by
  refine @ReadsBack.mk sampleSerde sampleProvider ?blank ?printable ?reads
  case blank =>
    intro line hblank
    have hrecord : line ≠ sampleRecordText := by
      rintro rfl
      revert hblank
      decide +kernel
    have hnext : line ≠ sampleNextText := by
      rintro rfl
      revert hblank
      decide +kernel
    exact (if_neg hrecord).trans (if_neg hnext)
  case printable =>
    intro value c hc
    have hplain : ∀ c ∈ sampleNextText, ' ' ≤ c := by decide +kernel
    by_cases htype : value.str "type" = some "session_meta".toList
    · exact hplain c ((if_pos htype : @SerdeJson.toText sampleSerde value = sampleNextText) ▸ hc)
    · have hempty : @SerdeJson.toText sampleSerde value = [] := if_neg htype
      rw [hempty] at hc
      cases hc
  case reads =>
    intro line members payload hrecord
    by_cases hline : line = sampleRecordText
    · subst hline
      rw [sampleSerde_record] at hrecord
      cases hrecord
      exact ⟨withProvider sampleProvider sampleMembers samplePayload, rfl, rfl⟩
    · by_cases hnext : line = sampleNextText
      · subst hnext
        rw [sampleSerde_next] at hrecord
        cases hrecord
        exact ⟨withProvider sampleProvider sampleMembers samplePayload, rfl, rfl⟩
      · have hnone : @SerdeJson.fromStr sampleSerde line = none := (if_neg hline).trans (if_neg hnext)
        unfold sessionRecord at hrecord
        rw [hnone] at hrecord
        cases hrecord

end Sample

end Lumio.Data
