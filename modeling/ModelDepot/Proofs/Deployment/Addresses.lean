import Mathlib.Data.List.Basic
import ModelDepot.Deployment.Client
import ModelDepot.Proofs.Url.Reading

/-! # The addresses of requests

A request goes to the base with the namespace, the endpoint's name and the operation put after it. Texts that are one
segment each, as they stand, are told apart by the server; others may address anything.
-/

namespace ModelDepot

namespace Deployment

/-! ## Segments -/

/-- What the address of a call has after the namespace. -/
def Call.trail : Call → List String
  | create _ => []
  | get name => [name]
  | pause name => [name, "pause"]
  | resume name => [name, "resume"]
  | delete name => [name]

def Call.method : Call → Method
  | create _ => .post
  | get _ => .get
  | pause _ => .post
  | resume _ => .post
  | delete _ => .delete

/-- The same call, whatever a creation is asked for. -/
def Call.Same : Call → Call → Prop
  | create _, create _ => True
  | a, b => a = b

def Request.segments (r : Request) : List String := r.owner :: r.call.trail

/-- A text that is one segment of a route as it stands. -/
structure Plain (s : String) : Prop where
  characters : ∀ c ∈ s.toList, c ∉ ['/', '\\', '?', '#', '%', '\t', '\n', '\r']
  ne_dot : s ≠ "."
  ne_dotDot : s ≠ ".."

/-- All segments are plain, and the last does not end in a blank. -/
structure Request.Plain (r : Request) : Prop where
  segments : ∀ s ∈ r.segments, Deployment.Plain s
  last : ∀ s, r.segments.getLast? = some s → ∀ c, s.toList.getLast? = some c → 0x20 < c.toNat

namespace Plain

variable {s : String}

theorem inside (plain : Plain s) {c : Char} (mem : c ∈ s.toList) :
    Url.isInner c = true ∧ Url.endsRoute c = false ∧ Url.isSlash true c = false := by
  have := plain.characters c mem
  simp only [List.mem_cons, List.not_mem_nil, or_false, not_or] at this
  simp [Url.isInner, Url.endsRoute, Url.isSlash, this]

theorem noEscape (plain : Plain s) : '%' ∉ s.toList := fun mem => plain.characters _ mem (by decide)

theorem noDots (plain : Plain s) : Url.isSingleDot s.toList = false ∧ Url.isDoubleDot s.toList = false :=
  Url.dots_of_noEscape plain.noEscape (fun h => plain.ne_dot (String.toList_inj.mp h))
    fun h => plain.ne_dotDot (String.toList_inj.mp h)

end Plain

/-- Segments with slashes between them. -/
def joined (first : String) (rest : List String) : List Char := first.toList ++ rest.flatMap fun s => '/' :: s.toList

theorem split_joined {first : String} {rest : List String} (plain : ∀ s ∈ first :: rest, Plain s) :
    Url.Host.split (Url.isSlash true) (joined first rest) = (first :: rest).map String.toList := by
  have alone : ∀ s ∈ first :: rest, Url.Host.split (Url.isSlash true) s.toList = [s.toList] := fun s mem =>
    Url.Host.split_of_forall fun c hc => ((plain s mem).inside hc).2.2
  induction rest generalizing first with
  | nil => simpa [joined] using alone first
  | cons second rest ih =>
    rw [List.map_cons, ← ih (fun s mem => plain s (List.mem_cons_of_mem _ mem))
      fun s mem => alone s (List.mem_cons_of_mem _ mem)]
    rw [joined, List.flatMap_cons, List.cons_append, Url.Host.split_append _ _ rfl, alone first (by simp)]
    rfl

theorem kept_joined {first : String} {rest : List String} (plain : ∀ s ∈ first :: rest, Plain s) :
    ∀ c ∈ joined first rest, Url.isInner c = true ∧ Url.endsRoute c = false := by
  intro c mem
  rw [joined, List.mem_append, List.mem_flatMap] at mem
  rcases mem with mem | ⟨s, hs, mem⟩
  · have := (plain first (by simp)).inside mem
    exact ⟨this.1, this.2.1⟩
  · rcases List.mem_cons.mp mem with rfl | mem
    · exact ⟨rfl, rfl⟩
    · have := (plain s (by simp [hs])).inside mem
      exact ⟨this.1, this.2.1⟩

namespace Client

theorem route_eq (c : Client) (r : Request) :
    (c.route r.owner r.call).1 = r.call.method ∧
      (c.route r.owner r.call).2.toList = c.base.toList ++ '/' :: joined r.owner r.call.trail := by
  cases r.call <;> simp [route, Call.method, Call.trail, joined]

theorem last_joined {r : Request} (plain : r.Plain) (c : Char) (h : (joined r.owner r.call.trail).getLast? = some c) :
    Url.isOuter c = false := by
  have last := plain.last
  unfold Request.segments at last
  obtain none' | ⟨front, s, some'⟩ := List.eq_nil_or_concat r.call.trail
  · rw [none', joined, List.flatMap_nil, List.append_nil] at h
    rw [none'] at last
    simpa [Url.isOuter] using last r.owner rfl c h
  · rw [some', List.concat_eq_append, joined, List.flatMap_append, List.flatMap_singleton, ← List.append_assoc,
      List.getLast?_append, List.getLast?_cons] at h
    rw [some', List.concat_eq_append, ← List.cons_append] at last
    cases ends : s.toList.getLast? with
    | none =>
      obtain rfl : '/' = c := by simpa [ends] using h
      rfl
    | some d =>
      obtain rfl : d = c := by simpa [ends] using h
      simpa [Url.isOuter] using last s List.getLast?_concat d ends

/-- The address of a request with these segments after a base's. -/
def addressed (u : Url) (ground : List (List Char)) (segments : List String) : Url :=
  { anonymous u with route := .segments (ground ++ segments.map fun s => Url.escape Url.inPath s.toList) }

theorem unescape_segments {segments : List String} (plain : ∀ s ∈ segments, Plain s) :
    (segments.map fun s => Url.unescape (Url.escape Url.inPath s.toList)) = segments.map Text.utf8 := by
  refine List.map_congr_left fun s mem => ?_
  rw [Url.unescape_escape Url.inPath (plain s mem).noEscape, Text.utf8_eq_encode]

theorem segments_of_addressed {u : Url} {ground : List (List Char)} {ss ts : List String} (hs : ∀ s ∈ ss, Plain s)
    (ht : ∀ s ∈ ts, Plain s) (same : addressed u ground ss = addressed u ground ts) : ss = ts := by
  have route := congrArg Url.route same
  simp only [addressed, Url.Route.segments.injEq, List.append_cancel_left_eq] at route
  have bytes := congrArg (List.map Url.unescape) route
  simp only [List.map_map, Function.comp_def, unescape_segments hs, unescape_segments ht] at bytes
  exact List.map_injective_iff.mpr (fun _ _ same => Text.utf8_inj same) bytes

theorem same_of_segments {r r' : Request} (segments : r.segments = r'.segments) (method : r.call.method = r'.call.method) :
    r.call.Same r'.call := by
  unfold Request.segments at segments
  generalize r.call = a, r'.call = b at segments method
  cases a <;> cases b <;> simp_all [Call.trail, Call.method, Call.Same]

/-! ## Who asks -/

theorem fits_base64Group (a b c : UInt8) : ∀ d ∈ Text.base64Group a b c, fits d := by
  have digit : ∀ n < 64, fits (Text.base64Digit n) := by decide
  have ha := a.toNat_lt
  have hb := b.toNat_lt
  have hc := c.toNat_lt
  simp only [Text.base64Group, List.map_cons, List.map_nil, List.mem_cons, List.not_mem_nil, or_false, forall_eq_or_imp,
    forall_eq]
  exact ⟨digit _ (by omega), digit _ (by omega), digit _ (by omega), digit _ (by omega)⟩

theorem fits_base64 (bytes : List UInt8) : ∀ d ∈ Text.base64 bytes, fits d := by
  have sign : fits '=' := by decide
  induction bytes using Text.base64.induct with
  | case1 a b c rest ih =>
    intro d mem
    exact (List.mem_append.mp mem).elim (fits_base64Group a b c d) (ih d)
  | case2 a b =>
    intro d mem
    obtain group | rfl := by simpa [Text.base64] using mem
    · exact fits_base64Group a b 0 d (List.mem_of_mem_take group)
    · exact sign
  | case3 a =>
    intro d mem
    obtain group | rfl := by simpa [Text.base64] using mem
    · exact fits_base64Group a 0 0 d (List.mem_of_mem_take group)
    · exact sign
  | case4 => simp [Text.base64]

theorem fitsHeader_basic (name : String) (password : Option String) : fitsHeader (basic name password) := by
  have kind : "Basic ".toList.all fits = true := by rfl
  have rest : (Text.base64 (Text.utf8 (name ++ ":" ++ password.getD ""))).all fits = true :=
    List.all_eq_true.mpr (fits_base64 _)
  have parts : (basic name password).toList =
      "Basic ".toList ++ Text.base64 (Text.utf8 (name ++ ":" ++ password.getD "")) :=
    String.toList_append.trans (congrArg _ String.toList_ofList)
  rw [fitsHeader, parts, List.all_append, kind, rest]
  rfl

example : basic "Aladdin" (some "open sesame") = "Basic QWxhZGRpbjpvcGVuIHNlc2FtZQ==" := by cbv

theorem all_fitsHeader (u : Url) (c : Credentials) : (authorization u c).all fitsHeader = fitsHeader c.bearer := by
  cases found : login? u with
  | none => simp [authorization, found]
  | some login => simp [authorization, found, fitsHeader_basic]

theorem authorization_route (u : Url) (route : Url.Route) (c : Credentials) :
    authorization { u with route } c = authorization u c := rfl

theorem anonymous_route (u : Url) (route : Url.Route) :
    anonymous { u with route } = { anonymous u with route } := by
  unfold anonymous
  rw [show login? { u with route } = login? u from rfl]
  split <;> rfl

/-! ## Addresses -/

/-- **Plain segments address one endpoint and one operation.** The request goes to the base's route with the namespace,
the name and the operation put after it, and no other plain request goes there. -/
theorem message_addresses (c : Client) {u : Url} (base : Url.ofText (c.base ++ "/") = .ok u)
    (web : schemes.contains (String.ofList u.scheme)) (noQuery : u.query = none) (noFragment : u.fragment = none) :
    ∃ ground, u.route = .segments (ground ++ [[]]) ∧
      ∀ r : Request, r.Plain →
        (c.message r =
          if fitsHeader r.credentials.bearer then
            .ok ⟨r.call.method, addressed u ground r.segments, authorization u r.credentials, body r.call⟩
          else .error (.builder none "failed to parse header value")) ∧
        (r.segments.map fun s => Url.unescape (Url.escape Url.inPath s.toList)) = r.segments.map Text.utf8 ∧
        ∀ r' : Request, r'.Plain → ∀ m m', c.message r = .ok m → c.message r' = .ok m' → m.url = m'.url →
          r.segments = r'.segments ∧ (m.method = m'.method → r.call.Same r'.call) := by
  have chars : (c.base ++ "/").toList = c.base.toList ++ ['/'] := by simp
  have scheme : String.ofList u.scheme = "http" ∨ String.ofList u.scheme = "https" := by simpa [schemes] using web
  have other : u.scheme ≠ "file".toList := by
    intro file
    rw [file] at scheme
    simp at scheme
  have special : (Url.standardPort? (String.ofList u.scheme)).isSome := by
    rcases scheme with h | h <;> rw [h] <;> rfl
  rw [Url.ofText, chars] at base
  obtain ⟨host, ground, route, reads⟩ := Url.ofChars_append base other special noQuery noFragment
  have sent : ∀ r : Request, r.Plain → c.message r =
      if fitsHeader r.credentials.bearer then
        .ok ⟨r.call.method, addressed u ground r.segments, authorization u r.credentials, body r.call⟩
      else .error (.builder none "failed to parse header value") := by
    intro r plain
    have address := reads _ (kept_joined plain.segments) (last_joined plain)
    rw [split_joined plain.segments, Url.addPieces_of_plain false ground (by
      intro p mem
      obtain ⟨s, hs, rfl⟩ := List.mem_map.mp mem
      exact (plain.segments s hs).noDots), ← (c.route_eq r).2, ← Url.ofText] at address
    have method := (c.route_eq r).1
    have found : u.host.isNone = false := Option.isNone_eq_false_iff.mpr host
    rw [List.map_map] at address
    unfold message
    generalize c.route r.owner r.call = asked at method address
    simp only [address, found, web, Bool.false_eq_true, if_false, Bool.not_true, method, Bool.not_eq_true', all_fitsHeader]
    rw [authorization_route u, anonymous_route u]
    cases fitsHeader r.credentials.bearer <;> rfl
  refine ⟨ground, route, fun r plain => ⟨sent r plain, unescape_segments plain.segments, ?_⟩⟩
  intro r' plain' m m' ok ok' same
  rw [sent r plain] at ok
  rw [sent r' plain'] at ok'
  split at ok <;> split at ok'
  · obtain rfl := Except.ok.inj ok
    obtain rfl := Except.ok.inj ok'
    have segments := segments_of_addressed plain.segments plain'.segments same
    exact ⟨segments, same_of_segments segments⟩
  all_goals simp at ok ok'

/-- A client of the server `h`. -/
def ofHost : Client := ⟨"http://h/v2"⟩

/-- The address of a route of the server `h`. -/
def hostUrl (segments : List String) : Url :=
  ⟨"http".toList, none, some (.domain ['h']), none, .segments (segments.map String.toList), none, none⟩

/-- To pause an endpoint. -/
def pausing (owner name : String) : Request :=
  ⟨⟨0⟩, .cleared, ⟨"hf_test", "acme", by decide, by decide⟩, owner, .pause name⟩

theorem plain_pausing : (pausing "acme" "bert").Plain where
  segments := by
    simp only [Request.segments, pausing, Call.trail, List.mem_cons, List.not_mem_nil, or_false, forall_eq_or_imp, forall_eq]
    have plain : ∀ s ≠ ".", s ≠ ".." → s.toList.all (! ['/', '\\', '?', '#', '%', '\t', '\n', '\r'].contains ·) = true →
        Plain s := fun s dot dots all => ⟨by simpa using all, dot, dots⟩
    refine ⟨plain _ ?_ ?_ ?_, plain _ ?_ ?_ ?_, plain _ ?_ ?_ ?_⟩ <;> decide
  last := by
    rintro _ ⟨⟩ _ ⟨⟩
    decide

theorem message_addresses_pausing :
    Url.ofText (ofHost.base ++ "/") = .ok (hostUrl ["v2", ""]) ∧
      ∃ m, ofHost.message (pausing "acme" "bert") = .ok m ∧ m.url = hostUrl ["v2", "acme", "bert", "pause"] := by
  have base : Url.ofText (ofHost.base ++ "/") = .ok (hostUrl ["v2", ""]) := by decide +kernel
  obtain ⟨ground, route, sent⟩ := message_addresses ofHost base (by decide) rfl rfl
  obtain rfl : ground = [['v', '2']] := by
    have := Url.Route.segments.inj route
    exact (List.append_inj' this rfl).1.symm
  exact ⟨base, _, (sent _ plain_pausing).1, by decide +kernel⟩

theorem message_climbs :
    ∃ m, ofHost.message (pausing "acme" "../other/bert") = .ok m ∧
      ofHost.message (pausing "other" "bert") = .ok m := by
  have climbs : Url.ofText "http://h/v2/acme/../other/bert/pause" = .ok (hostUrl ["v2", "other", "bert", "pause"]) := by
    decide +kernel
  have stays : Url.ofText "http://h/v2/other/bert/pause" = .ok (hostUrl ["v2", "other", "bert", "pause"]) := by
    decide +kernel
  have address : (ofHost.route "acme" (.pause "../other/bert")).2 = "http://h/v2/acme/../other/bert/pause" := by decide
  have address' : (ofHost.route "other" (.pause "bert")).2 = "http://h/v2/other/bert/pause" := by decide
  refine ⟨⟨.post, hostUrl ["v2", "other", "bert", "pause"], ["Bearer hf_test"], none⟩, ?_, ?_⟩
  · simp only [message, pausing, address, climbs]
    rfl
  · simp only [message, pausing, address', stays]
    rfl

end Client

end Deployment

end ModelDepot
