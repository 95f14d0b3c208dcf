import Lumio.Lib.Text
import Mathlib.Data.List.TakeWhile

/-!
# URLs

A URL is taken apart as `net/url` does it: the fragment behind the first `#`, the scheme, the query behind the first `?`,
the authority up to the next slash, and in it the user information up to the last `@`.
-/

namespace Url

open Text (isWhitespace)

def before (c : Char) (text : Text) : Text := text.takeWhile (· != c)

/-- What stands behind the first such character. -/
def after (c : Char) (text : Text) : Text := (text.dropWhile (· != c)).tail

/-- What stands before and behind the last such character. -/
def aroundLast (c : Char) (text : Text) : Option (Text × Text) :=
  if c ∈ text then some ((after c text.reverse).reverse, (before c text.reverse).reverse) else none

def isDigit (c : Char) : Bool := 0x30 ≤ c.toNat && c.toNat ≤ 0x39

def isAlpha (c : Char) : Bool := (0x41 ≤ c.toNat && c.toNat ≤ 0x5a) || (0x61 ≤ c.toNat && c.toNat ≤ 0x7a)

def isHex (c : Char) : Bool :=
  isDigit c || (0x41 ≤ c.toNat && c.toNat ≤ 0x46) || (0x61 ≤ c.toNat && c.toNat ≤ 0x66)

def isControl (c : Char) : Bool := c.toNat < 0x20 || c.toNat = 0x7f

/-- Every percent sign has two hexadecimal digits behind it. -/
def validEscapes : Text → Bool
  | [] => true
  | '%' :: a :: b :: rest => isHex a && isHex b && validEscapes rest
  | '%' :: _ => false
  | _ :: rest => validEscapes rest

structure Parts where
  scheme : Text := []
  rootless : Text := []
  user : Option Text := none
  host : Text := []
  path : Text := []
  forceQuery : Bool := false
  query : Text := []
  fragment : Text := []
deriving DecidableEq

def isSchemeChar (c : Char) : Bool := isAlpha c || isDigit c || c == '+' || c == '-' || c == '.'

/-- `getScheme`: a scheme and what follows its colon, or no scheme. -/
def getScheme (text : Text) : Option (Text × Text) :=
  match text.takeWhile isSchemeChar, text.dropWhile isSchemeChar with
  | [], ':' :: _ => none
  | c :: scheme, ':' :: rest => if isAlpha c then some (c :: scheme, rest) else some ([], text)
  | _, _ => some ([], text)

def validOptionalPort : Text → Bool
  | [] => true
  | c :: port => c == ':' && port.all isDigit

def isUserinfoChar (c : Char) : Bool := isAlpha c || isDigit c || "-._:~!$&'()*+,;=%@".toList.contains c

def isHostChar (c : Char) : Bool :=
  isAlpha c || isDigit c || "-_.~!$&'()*+,;=:[]<>\"%".toList.contains c || 0x80 ≤ c.toNat

/-- Only bytes that are not ASCII may be escaped in a host. -/
def validHost : Text → Bool
  | [] => true
  | '%' :: a :: b :: rest => isHex a && isHex b && (!(isDigit a && a.toNat < 0x38) || (a == '2' && b == '5')) && validHost rest
  | '%' :: _ => false
  | c :: rest => isHostChar c && validHost rest

def parseHost (host : Text) : Option Text :=
  if host.head? = some '[' then
    match aroundLast ']' host with
    | none => none
    | some (_, port) => if validOptionalPort port && validHost host then some host else none
  else
    match aroundLast ':' host with
    | none => if validHost host then some host else none
    | some (_, port) => if port.all isDigit && validHost host then some host else none

def parseAuthority (authority : Text) : Option (Option Text × Text) :=
  match aroundLast '@' authority with
  | none => (parseHost authority).map fun host => (none, host)
  | some (user, rest) =>
    (parseHost rest).bind fun host =>
      if user.all isUserinfoChar && validEscapes user then some (some user, host) else none

def parseHierarchy (scheme rest : Text) : Option Parts :=
  match rest with
  | '/' :: '/' :: rest' =>
    if scheme.isEmpty && rest'.head? = some '/' then
      if validEscapes rest then some { path := rest } else none
    else
      (parseAuthority (before '/' rest')).bind fun (user, host) =>
        if validEscapes (rest'.dropWhile (· != '/')) then
          some { scheme, user, host, path := rest'.dropWhile (· != '/') }
        else none
  | '/' :: _ => if validEscapes rest then some { scheme, path := rest } else none
  | _ =>
    if !scheme.isEmpty then some { scheme, rootless := rest }
    else if ':' ∈ before '/' rest then none
    else if validEscapes rest then some { path := rest } else none

def parseReference (text : Text) : Option Parts :=
  if text.any isControl then none
  else if text = ['*'] then some { path := text }
  else
    (getScheme text).bind fun (scheme, rest) =>
      (parseHierarchy scheme (before '?' rest)).map fun parts =>
        { parts with query := after '?' rest, forceQuery := decide ('?' ∈ rest ∧ after '?' rest = []) }

def parse (text : Text) : Option Parts :=
  (parseReference (before '#' text)).bind fun parts =>
    if validEscapes (after '#' text) then some { parts with fragment := after '#' text } else none

/-- `splitHostPort` -/
def Parts.hostPort (parts : Parts) : Text × Text :=
  match aroundLast ':' parts.host with
  | some (host, port) => if port.all isDigit then (host, port) else (parts.host, [])
  | none => (parts.host, [])

/-- `Hostname` -/
def Parts.hostname (parts : Parts) : Text :=
  if parts.hostPort.1.head? = some '[' ∧ parts.hostPort.1.getLast? = some ']' then parts.hostPort.1.tail.dropLast
  else parts.hostPort.1

/-- `Port` -/
def Parts.port (parts : Parts) : Text := parts.hostPort.2

/-! ## Texts around a character -/

section Around

variable {c : Char} {a b text : Text}

theorem before_of_not_mem (h : c ∉ text) : before c text = text := by
  apply List.takeWhile_eq_self_iff.mpr
  intro d hd
  rw [bne_iff_ne]
  rintro rfl
  exact h hd

theorem after_of_not_mem (h : c ∉ text) : after c text = [] := by
  have hdrop : text.dropWhile (· != c) = [] := by
    rw [List.dropWhile_eq_nil_iff]
    intro d hd
    rw [bne_iff_ne]
    rintro rfl
    exact h hd
  rw [after, hdrop]
  rfl

theorem before_append (h : c ∉ a) (b : Text) : before c (a ++ c :: b) = a := by
  induction a with
  | nil => simp [before]
  | cons d a ih =>
    obtain ⟨hd, ha⟩ : c ≠ d ∧ c ∉ a := by simpa using h
    have hcons : before c (d :: a ++ c :: b) = d :: before c (a ++ c :: b) :=
      List.takeWhile_cons_of_pos (by simpa using Ne.symm hd)
    rw [hcons, ih ha]

theorem dropWhile_append (h : c ∉ a) (b : Text) : (a ++ c :: b).dropWhile (· != c) = c :: b := by
  rw [List.dropWhile_append_of_pos]
  · exact List.dropWhile_cons_of_neg (by simp)
  · intro d hd
    rw [bne_iff_ne]
    rintro rfl
    exact h hd

theorem after_append (h : c ∉ a) (b : Text) : after c (a ++ c :: b) = b := by
  rw [after, dropWhile_append h]
  rfl

theorem after_append_of_not_mem (h : c ∉ a) (b : Text) : after c (a ++ b) = after c b := by
  rw [after, after, List.dropWhile_append_of_pos]
  intro d hd
  rw [bne_iff_ne]
  rintro rfl
  exact h hd

theorem aroundLast_of_not_mem (h : c ∉ text) : aroundLast c text = none := if_neg h

theorem aroundLast_append (a : Text) (h : c ∉ b) : aroundLast c (a ++ c :: b) = some (a, b) := by
  have hreverse : (a ++ c :: b).reverse = b.reverse ++ c :: a.reverse := by simp
  have hb : c ∉ b.reverse := by simpa using h
  rw [aroundLast, if_pos (by simp), hreverse, before_append hb, after_append hb, List.reverse_reverse, List.reverse_reverse]

theorem exists_aroundLast (h : c ∈ text) : ∃ a b, text = a ++ c :: b ∧ c ∉ b := by
  obtain ⟨a, b, hsplit, ha⟩ := List.eq_append_cons_of_mem (List.mem_reverse.mpr h)
  refine ⟨b.reverse, a.reverse, ?_, by simpa using ha⟩
  have hreverse := congrArg List.reverse hsplit
  rw [List.reverse_reverse] at hreverse
  rw [hreverse]
  simp

theorem aroundLast_eq_some (h : aroundLast c text = some (a, b)) : text = a ++ c :: b ∧ c ∉ b := by
  unfold aroundLast at h
  split_ifs at h with hmem
  obtain ⟨start, rest, hsplit, hrest⟩ := exists_aroundLast hmem
  have haround := aroundLast_append start hrest
  rw [← hsplit, aroundLast, if_pos hmem] at haround
  rw [haround] at h
  cases h
  exact ⟨hsplit, hrest⟩

end Around

/-! ## URLs with the scheme http -/

section Http

variable {authority path text : Text} {parts : Parts}

def http : Text := "http://".toList

theorem parse_fragment (h : parse text = some parts) : parts.fragment = after '#' text := by
  obtain ⟨reference, -, hfragment⟩ := Option.bind_eq_some_iff.mp h
  split_ifs at hfragment
  cases hfragment
  rfl

theorem getScheme_http (rest : Text) : getScheme (http ++ rest) = some ("http".toList, '/' :: '/' :: rest) := by
  have htext : http ++ rest = 'h' :: 't' :: 't' :: 'p' :: ':' :: '/' :: '/' :: rest := rfl
  have hbefore : (http ++ rest).takeWhile isSchemeChar = ['h', 't', 't', 'p'] := rfl
  have hafter : (http ++ rest).dropWhile isSchemeChar = ':' :: '/' :: '/' :: rest := rfl
  rw [getScheme, hbefore, hafter]
  rfl

theorem http_ne (rest : Text) : http ++ rest ≠ ['*'] := by
  intro h
  exact absurd (List.cons.inj h).1 (by decide)

variable {c : Char} {port : Text}

theorem not_mem_http (hc : c ∉ http) {rest : Text} (h : c ∉ rest) : c ∉ http ++ rest := by
  rw [List.mem_append, not_or]
  exact ⟨hc, h⟩

theorem parse_query {rest : Text} (hfragment : '#' ∉ rest) (h : parse (http ++ rest) = some parts) :
    parts.query = after '?' rest ∧ parts.forceQuery = decide ('?' ∈ rest ∧ after '?' rest = []) := by
  obtain ⟨reference, hreference, hparts⟩ := Option.bind_eq_some_iff.mp h
  split_ifs at hparts
  cases hparts
  rw [before_of_not_mem (not_mem_http (by decide) hfragment), parseReference] at hreference
  rw [if_neg (http_ne rest), getScheme_http, Option.bind_some] at hreference
  split_ifs at hreference
  obtain ⟨hierarchy, -, hquery⟩ := Option.map_eq_some_iff.mp hreference
  cases hquery
  have hafter : after '?' ('/' :: '/' :: rest) = after '?' rest := rfl
  simp [hafter]

theorem parse_http (hslash : '/' ∉ authority) (hpath : path.head? = some '/')
    (hquery : '?' ∉ authority ++ path) (hfragment : '#' ∉ authority ++ path) :
    parse (http ++ (authority ++ path)) =
      if (http ++ (authority ++ path)).any isControl then none
      else (parseAuthority authority).bind fun (user, host) =>
        if validEscapes path then some { scheme := "http".toList, user, host, path } else none := by
  obtain ⟨tail, rfl⟩ : ∃ tail, path = '/' :: tail := by
    cases path with
    | nil => cases hpath
    | cons c tail =>
      cases hpath
      exact ⟨tail, rfl⟩
  have hnone := not_mem_http (by decide : '#' ∉ http) hfragment
  have hslashes : '?' ∉ '/' :: '/' :: (authority ++ '/' :: tail) := by simpa using hquery
  rw [parse, before_of_not_mem hnone, after_of_not_mem hnone, parseReference, if_neg (http_ne _), getScheme_http,
    Option.bind_some]
  by_cases hcontrol : (http ++ (authority ++ '/' :: tail)).any isControl = true
  · rw [if_pos hcontrol, if_pos hcontrol]
    rfl
  · rw [if_neg hcontrol, if_neg hcontrol]
    simp only [before_of_not_mem hslashes, after_of_not_mem hslashes]
    rw [parseHierarchy, before_append hslash, dropWhile_append hslash]
    cases parseAuthority authority with
    | none => rfl
    | some found =>
      obtain ⟨user, host⟩ := found
      by_cases hescapes : validEscapes ('/' :: tail) = true
      · simp [hescapes, hslashes, validEscapes]
      · simp [hescapes]

/-! ### Hosts -/

theorem ne_of_isDigit {d : Char} (hd : isDigit d = false) (h : isDigit c = true) : c ≠ d := by
  rintro rfl
  rw [h] at hd
  cases hd

theorem not_mem_of_isDigit {d : Char} (hd : isDigit d = false) (h : ∀ c ∈ port, isDigit c = true) : d ∉ port :=
  fun hmem => ne_of_isDigit hd (h d hmem) rfl

theorem isControl_of_isDigit (h : isDigit c = true) : isControl c = false := by
  simp only [isDigit, Bool.and_eq_true, decide_eq_true_eq] at h
  simp only [isControl, Bool.or_eq_false_iff, decide_eq_false_iff_not]
  omega

theorem validHost_append {a b : Text} (ha : '%' ∉ a) : validHost (a ++ b) = (a.all isHostChar && validHost b) := by
  induction a with
  | nil => rfl
  | cons c a ih =>
    obtain ⟨hc, ha⟩ : '%' ≠ c ∧ '%' ∉ a := by simpa using ha
    rw [List.cons_append, validHost, ih ha, List.all_cons, Bool.and_assoc]
    · intro _ _ _ hchar
      exact absurd hchar.symm hc
    · intro hchar
      exact absurd hchar.symm hc

theorem validHost_digits (h : ∀ c ∈ port, isDigit c = true) : validHost port = true := by
  have happend := validHost_append (b := []) (not_mem_of_isDigit (by decide : isDigit '%' = false) h)
  rw [List.append_nil] at happend
  rw [happend, validHost, Bool.and_true, List.all_eq_true]
  intro c hc
  simp [isHostChar, h c hc]

theorem parseAuthority_port {host port : Text} (huser : '@' ∉ host) (hbracket : host.head? ≠ some '[') (hhost : host ≠ [])
    (hvalid : '%' ∉ host ∧ host.all isHostChar = true) (hport : ∀ c ∈ port, isDigit c = true) :
    parseAuthority (host ++ ':' :: port) = some (none, host ++ ':' :: port) := by
  have hat : '@' ∉ host ++ ':' :: port := by
    simp only [List.mem_append, List.mem_cons, not_or]
    exact ⟨huser, by decide, not_mem_of_isDigit (by decide) hport⟩
  have hhead : (host ++ ':' :: port).head? ≠ some '[' := by
    rwa [List.head?_append_of_ne_nil _ hhost]
  have hdigits : port.all isDigit = true := List.all_eq_true.mpr hport
  have hchars : validHost (host ++ ':' :: port) = true := by
    rw [validHost_append hvalid.1, hvalid.2, Bool.true_and]
    have hcolon := validHost_append (a := [':']) (b := port) (by decide)
    rw [List.singleton_append] at hcolon
    rw [hcolon, validHost_digits hport]
    rfl
  have hcolon : ':' ∉ port := not_mem_of_isDigit (by decide) hport
  rw [parseAuthority, aroundLast_of_not_mem hat]
  simp only
  rw [parseHost, if_neg hhead, aroundLast_append host hcolon]
  simp only
  rw [hdigits, hchars]
  rfl

theorem hostPort_eq {host : Text} (hport : parts.port ≠ []) (h : parts.hostPort = (host, port)) :
    parts.host = host ++ ':' :: port ∧ ∀ c ∈ port, isDigit c = true := by
  unfold Parts.port at hport
  unfold Parts.hostPort at h hport
  split at h
  · rename_i a b haround
    rw [haround] at hport
    simp only at h hport
    split_ifs at h hport with hdigits
    · cases h
      exact ⟨(aroundLast_eq_some haround).1, List.all_eq_true.mp hdigits⟩
    · exact absurd rfl hport
  · rename_i hnone
    rw [hnone] at hport
    exact absurd rfl hport

theorem parseAuthority_eq {host : Text} (h : parseAuthority authority = some (none, host)) :
    '@' ∉ authority ∧ host = authority := by
  unfold parseAuthority at h
  split at h
  · rename_i hnone
    obtain ⟨found, hfound, heq⟩ := Option.map_eq_some_iff.mp h
    cases heq
    refine ⟨fun hmem => ?_, ?_⟩
    · rw [aroundLast, if_pos hmem] at hnone
      cases hnone
    · unfold parseHost at hfound
      split at hfound
      · split at hfound
        · cases hfound
        · split_ifs at hfound
          exact (Option.some.inj hfound).symm
      · split at hfound
        · split_ifs at hfound
          exact (Option.some.inj hfound).symm
        · split_ifs at hfound
          exact (Option.some.inj hfound).symm
  · obtain ⟨found, -, heq⟩ := Option.bind_eq_some_iff.mp h
    split_ifs at heq
    cases heq

end Http

end Url
