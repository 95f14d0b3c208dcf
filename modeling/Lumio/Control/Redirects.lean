import Lumio.Control.Sessions
import Lumio.Lib.PathMatch
import Lumio.Lib.Url

/-!
# Redirects to the loopback interface

The desktop application waits for its authorization code on a port of its own, which the registered pattern of the redirect
leaves open. The pattern is matched as a file name; what the match means for the URL is another matter.
-/

namespace Lumio.Control

open Text (IsPlain)

def loopbackHosts : List Text := ["127.0.0.1".toList, "localhost".toList]

/-- `http://host:*/path` -/
def loopbackPattern (host path : Text) : Text := Url.http ++ host ++ ':' :: '*' :: path

structure IsPath (path : Text) : Prop where
  slash : path.head? = some '/'
  plain : ∀ c ∈ path, IsPlain c
  visible : ∀ c ∈ path, Url.isControl c = false
  fragment : '#' ∉ path
  escapes : Url.validEscapes path = true

/-- A pattern as clients register them: without wildcard, or with one for the port of a loopback address. -/
inductive Registered : Text → Prop where
  | exact {pattern : Text} (h : '*' ∉ pattern) : Registered pattern
  | loopback {host path : Text} (hhost : host ∈ loopbackHosts) (hpath : IsPath path) : Registered (loopbackPattern host path)

def IsDecimal (text : Text) : Prop := text ≠ [] ∧ ∀ c ∈ text, Url.isDigit c = true

instance (text : Text) : Decidable (IsDecimal text) := inferInstanceAs (Decidable (_ ∧ _))

structure Callback (host path : Text) (url : Url.Parts) : Prop where
  scheme : url.scheme = "http".toList
  user : url.user = none
  hostname : url.hostname = host
  port : IsDecimal url.port
  path : url.path = path
  query : url.query = [] ∧ url.forceQuery = false
  fragment : url.fragment = []

/-- What a wildcard pattern of the client accepts is a callback to the host and the path of the pattern. -/
def LoopbackOnly (client : OAuthClient) (uri : Text) : Prop :=
  ∀ host ∈ loopbackHosts, ∀ path, loopbackPattern host path ∈ client.redirectURIPatterns →
    matchRedirectPattern (loopbackPattern host path) uri = true → ∃ url, Url.parse uri = some url ∧ Callback host path url

/-- What a wildcard of the client stands for is a decimal number. -/
def DecimalWildcards (client : OAuthClient) (uri : Text) : Prop :=
  ∀ pattern ∈ client.redirectURIPatterns, ∀ before after run, pattern = before ++ '*' :: after → '/' ∉ run →
    uri = before ++ run ++ after → IsDecimal run

section Loopback

variable {host path uri run pattern : Text} {client : OAuthClient} {url : Url.Parts}

theorem loopbackHost_plain (h : host ∈ loopbackHosts) : ∀ c ∈ Url.http ++ host ++ [':'], IsPlain c := by
  revert host
  decide

theorem loopbackHost_visible (h : host ∈ loopbackHosts) : ∀ c ∈ Url.http ++ host ++ [':'], Url.isControl c = false := by
  revert host
  decide

theorem loopbackHost_not_mem (h : host ∈ loopbackHosts) :
    '/' ∉ host ∧ '?' ∉ host ∧ '#' ∉ host ∧ '@' ∉ host ∧ ':' ∉ host ∧ '%' ∉ host := by
  revert host
  decide

theorem loopbackHost_first (h : host ∈ loopbackHosts) : host ≠ [] ∧ host.head? ≠ some '[' ∧ host.all Url.isHostChar = true := by
  revert host
  decide

theorem matchRedirectPattern_loopback (hhost : host ∈ loopbackHosts) (hpath : IsPath path) :
    matchRedirectPattern (loopbackPattern host path) uri = true ↔
      ∃ run, '/' ∉ run ∧ uri = Url.http ++ (host ++ ':' :: run ++ path) := by
  have hstar : '*' ∈ loopbackPattern host path := by simp [loopbackPattern]
  have hpattern : loopbackPattern host path = (Url.http ++ host ++ [':']) ++ '*' :: path := by simp [loopbackPattern]
  rw [matchRedirectPattern, if_neg (not_not.mpr hstar), hpattern, Text.pathMatch_star (loopbackHost_plain hhost) hpath.plain]
  simp

theorem callback_of_decimal (hhost : host ∈ loopbackHosts) (hpath : IsPath path) (hrun : IsDecimal run) :
    ∃ url, Url.parse (Url.http ++ (host ++ ':' :: run ++ path)) = some url ∧ Callback host path url := by
  obtain ⟨hslash, hquery, hfragment, huser, hcolon, hpercent⟩ := loopbackHost_not_mem hhost
  obtain ⟨hne, hbracket, hchars⟩ := loopbackHost_first hhost
  have hdigit : ∀ {c : Char}, Url.isDigit c = false → c ∉ run := fun hc => Url.not_mem_of_isDigit hc hrun.2
  have hpathQuery : '?' ∉ path := fun hmem => (hpath.plain _ hmem).2.1 rfl
  have hcontrol : (Url.http ++ (host ++ ':' :: run ++ path)).any Url.isControl = false := by
    rw [List.any_eq_false]
    intro c hc
    rw [Bool.not_eq_true]
    simp only [List.mem_append, List.mem_cons] at hc
    rcases hc with hc | (hc | rfl | hc) | hc
    · exact loopbackHost_visible hhost c (by simp [hc])
    · exact loopbackHost_visible hhost c (by simp [hc])
    · rfl
    · exact Url.isControl_of_isDigit (hrun.2 c hc)
    · exact hpath.visible c hc
  have hrunSlash : '/' ∉ run := hdigit (by decide)
  have hrunQuery : '?' ∉ run := hdigit (by decide)
  have hrunFragment : '#' ∉ run := hdigit (by decide)
  have hauthority : '/' ∉ host ++ ':' :: run := by simp [hslash, hrunSlash]
  have hparse := Url.parse_http hauthority hpath.slash (by simp [hquery, hrunQuery, hpathQuery])
    (by simp [hfragment, hrunFragment, hpath.fragment])
  rw [hcontrol, Url.parseAuthority_port huser hbracket hne ⟨hpercent, hchars⟩ hrun.2, if_neg Bool.false_ne_true] at hparse
  simp only [Option.bind_some, hpath.escapes, if_true] at hparse
  have hsplit : Url.Parts.hostPort { scheme := "http".toList, host := host ++ ':' :: run, path } = (host, run) := by
    rw [Url.Parts.hostPort, Url.aroundLast_append host (hdigit (by decide))]
    simp only
    rw [if_pos (List.all_eq_true.mpr hrun.2)]
  refine ⟨_, hparse, rfl, rfl, ?_, ?_, rfl, ⟨rfl, rfl⟩, rfl⟩
  · rw [Url.Parts.hostname, hsplit, if_neg fun h => hbracket h.1]
  · rw [Url.Parts.port, hsplit]
    exact hrun

theorem not_mem_of_after {c : Char} (hpath : path.head? = some '/') (h : Url.after c (run ++ path) = []) : c ∉ run := by
  intro hmem
  obtain ⟨a, b, rfl, ha⟩ := List.eq_append_cons_of_mem hmem
  rw [List.append_assoc, List.cons_append, Url.after_append ha, List.append_eq_nil_iff] at h
  rw [h.2] at hpath
  cases hpath

theorem decimal_of_callback (hhost : host ∈ loopbackHosts) (hpath : IsPath path) (hslash : '/' ∉ run)
    (hparse : Url.parse (Url.http ++ (host ++ ':' :: run ++ path)) = some url) (hurl : Callback host path url) :
    IsDecimal run := by
  obtain ⟨hhostSlash, hhostQuery, hhostFragment, huser, hcolon, hpercent⟩ := loopbackHost_not_mem hhost
  obtain ⟨hne, hbracket, hchars⟩ := loopbackHost_first hhost
  have hpathQuery : '?' ∉ path := fun hmem => (hpath.plain _ hmem).2.1 rfl
  have htext : host ++ ':' :: run ++ path = (host ++ [':']) ++ (run ++ path) := by simp
  have hbegin : ∀ {c : Char}, c ∉ host → c ≠ ':' → c ∉ host ++ [':'] := by
    intro c hc hne
    rw [List.mem_append, List.mem_singleton, not_or]
    exact ⟨hc, hne⟩
  have hfragment : '#' ∉ run := by
    apply not_mem_of_after hpath.slash
    rw [← Url.after_append_of_not_mem (hbegin hhostFragment (by decide)), ← htext,
      ← Url.after_append_of_not_mem (by decide : '#' ∉ Url.http), ← Url.parse_fragment hparse]
    exact hurl.fragment
  have hnoFragment : '#' ∉ host ++ ':' :: run ++ path := by simp [hhostFragment, hfragment, hpath.fragment]
  have hquery : '?' ∉ run := by
    apply not_mem_of_after hpath.slash
    rw [← Url.after_append_of_not_mem (hbegin hhostQuery (by decide)), ← htext,
      ← (Url.parse_query hnoFragment hparse).1]
    exact hurl.query.1
  have hauthority : '/' ∉ host ++ ':' :: run := by simp [hhostSlash, hslash]
  rw [Url.parse_http hauthority hpath.slash (by simp [hhostQuery, hquery, hpathQuery]) hnoFragment] at hparse
  simp only [hpath.escapes, if_true] at hparse
  split_ifs at hparse
  obtain ⟨⟨user, found⟩, hfound, hparts⟩ := Option.bind_eq_some_iff.mp hparse
  simp only [Option.some.injEq] at hparts
  subst hparts
  obtain rfl : user = none := hurl.user
  obtain ⟨-, rfl⟩ := Url.parseAuthority_eq hfound
  obtain ⟨a, port, hsplit⟩ : ∃ a port, Url.Parts.hostPort { scheme := "http".toList, host := host ++ ':' :: run, path } = (a, port) :=
    ⟨_, _, rfl⟩
  obtain ⟨hparts, -⟩ := Url.hostPort_eq hurl.port.1 hsplit
  have hparts : host ++ ':' :: run = a ++ ':' :: port := hparts
  have hname := hurl.hostname
  have hport := hurl.port
  rw [Url.Parts.hostname, hsplit] at hname
  rw [Url.Parts.port, hsplit] at hport
  have ha : a = host := by
    split_ifs at hname with hliteral
    · -- a host in brackets begins with one
      exfalso
      have hhead : (host ++ ':' :: run).head? = some '[' := by
        rw [hparts, List.head?_append_of_ne_nil _ fun h => by rw [h] at hliteral; cases hliteral.1]
        exact hliteral.1
      rw [List.head?_append_of_ne_nil _ hne] at hhead
      exact hbracket hhead
    · exact hname
  subst ha
  rw [(List.cons.inj (List.append_cancel_left hparts)).2]
  exact hport

theorem loopbackPattern_eq (host path : Text) : loopbackPattern host path = (Url.http ++ host ++ [':']) ++ '*' :: path := by
  simp [loopbackPattern]

theorem loopbackPattern_split (hhost : host ∈ loopbackHosts) (hpath : IsPath path) {before after : Text}
    (h : loopbackPattern host path = before ++ '*' :: after) : Url.http ++ host ++ [':'] = before ∧ path = after := by
  rw [loopbackPattern_eq] at h
  have hbefore : '*' ∉ Url.http ++ host ++ [':'] := fun hmem => (loopbackHost_plain hhost _ hmem).1 rfl
  have hafter : '*' ∉ path := fun hmem => (hpath.plain _ hmem).1 rfl
  obtain ⟨hbegin, -, hpath⟩ := (List.append_cons_inj_of_notMem hbefore hafter).mp h
  exact ⟨hbegin, hpath⟩

/-- The redirect stays on the loopback interface exactly when the wildcard of the pattern stands for a number. -/
theorem loopback_only_iff (hregistered : ∀ pattern ∈ client.redirectURIPatterns, Registered pattern) (uri : Text) :
    LoopbackOnly client uri ↔ DecimalWildcards client uri := by
  constructor
  · intro h pattern hmem before after run hpattern hslash huri
    cases hregistered pattern hmem with
    | exact hstar =>
      subst hpattern
      exact absurd (by simp) hstar
    | @loopback host path hhost hpath =>
      obtain ⟨rfl, rfl⟩ := loopbackPattern_split hhost hpath hpattern
      have htext : uri = Url.http ++ (host ++ ':' :: run ++ path) := by
        rw [huri]
        simp
      obtain ⟨url, hparse, hurl⟩ := h host hhost path hmem ((matchRedirectPattern_loopback hhost hpath).mpr ⟨run, hslash, htext⟩)
      rw [htext] at hparse
      exact decimal_of_callback hhost hpath hslash hparse hurl
  · intro h host hhost path hmem hmatch
    have hpath : IsPath path := by
      generalize hpattern : loopbackPattern host path = pattern at hmem
      cases hregistered pattern hmem with
      | exact hstar =>
        subst hpattern
        exact absurd (by simp [loopbackPattern]) hstar
      | @loopback other path' hother hpath' =>
        rw [loopbackPattern_eq host] at hpattern
        obtain ⟨-, rfl⟩ := loopbackPattern_split hother hpath' hpattern.symm
        exact hpath'
    obtain ⟨run, hslash, rfl⟩ := (matchRedirectPattern_loopback hhost hpath).mp hmatch
    have hdecimal := h _ hmem _ path run (loopbackPattern_eq host path) hslash (by simp)
    exact callback_of_decimal hhost hpath hdecimal

end Loopback

/-! ## The registered client -/

def desktopClient : OAuthClient where
  redirectURIPatterns := [loopbackPattern "127.0.0.1".toList "/callback".toList, loopbackPattern "localhost".toList "/callback".toList,
    "cchaven://auth/callback".toList]
  scopes := ["profile".toList, "workspace".toList, "offline_access".toList]

theorem desktopClient_registered : ∀ pattern ∈ desktopClient.redirectURIPatterns, Registered pattern := by
  have hpath : IsPath "/callback".toList := ⟨by decide, by decide, by decide, by decide, by decide⟩
  intro pattern hmem
  simp only [desktopClient, List.mem_cons, List.not_mem_nil, or_false] at hmem
  rcases hmem with rfl | rfl | rfl
  · exact .loopback List.mem_cons_self hpath
  · exact .loopback (List.mem_cons_of_mem _ List.mem_cons_self) hpath
  · exact .exact (by decide)

theorem loopback_only_desktop : LoopbackOnly desktopClient "http://127.0.0.1:53682/callback".toList ↔
    DecimalWildcards desktopClient "http://127.0.0.1:53682/callback".toList :=
  loopback_only_iff desktopClient_registered _

/-- The loopback address becomes the user name for another host. -/
theorem redirect_to_other_host :
    desktopClient.allowsRedirectURI "http://127.0.0.1:@evil.com/callback".toList = true ∧
      ¬LoopbackOnly desktopClient "http://127.0.0.1:@evil.com/callback".toList := by
  refine ⟨by decide, fun h => ?_⟩
  obtain ⟨url, hparse, hurl⟩ := h "127.0.0.1".toList List.mem_cons_self "/callback".toList List.mem_cons_self (by decide)
  have hhost : Url.parse "http://127.0.0.1:@evil.com/callback".toList = some
      { scheme := "http".toList, user := some "127.0.0.1:".toList, host := "evil.com".toList, path := "/callback".toList } := by
    decide
  rw [hparse] at hhost
  have huser := hurl.user
  rw [Option.some.inj hhost] at huser
  cases huser

end Lumio.Control
