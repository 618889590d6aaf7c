import Sush.Common.Plain
import Sush.Proxy.Routing

/-!
# What a request names, and how it is written

Whether the path names all sleds is asked before it is decoded, and what else it names after. So a `*`
that is written otherwise is read as all sleds in the end, and its request names no sled; but `via` was
not looked at. `namedTarget_jobs` says what the code does, and `intendedTarget` what the comment on
`named_target` says: the two agree unless this makes a difference (`ByText`).

Where they agree, requests that differ only in their encoding are routed alike. The text of an error is
another matter: what is not UTF-8 is quoted as it was written.
-/

namespace Sush

variable [World] [Phrases] [PercentEncoding]

/-- What the `via` parameter alone names. -/
def viaTarget (query : Option String) : Option (Except String Target) :=
  (query.bind viaParam).bind parseNamed

/-- What a segment of the path should name: what its text says, and if that is all sleds what `via`
names. -/
def intendedTarget (segment : String) (query : Option String) : Option (Except String Target) :=
  match decodeUtf8 segment with
  | none => some (.error segment)
  | some text =>
    match Target.fromStr text with
    | .ok .all => viaTarget query
    | .ok target => some (.ok target)
    | .error _ => some (.error text)

/-- The segment is a way to write all sleds. -/
def Wildcard (segment : String) : Prop :=
  ∃ text, decodeUtf8 segment = some text ∧ Target.fromStr text = .ok .all

/-- It makes no difference that the segment is compared before it is decoded. -/
def ByText (segment : String) (query : Option String) : Prop :=
  segment = "*" ∨ ¬Wildcard segment ∨ viaTarget query = none

/-! ## What a request names -/

variable {path path' : String} {query query' : Option String} {job action segment segment' : String}
  {rest : List String}

theorem parseNamed_eq_none_iff : parseNamed segment = none ↔ Wildcard segment := by
  unfold parseNamed Wildcard
  cases decodeUtf8 segment with
  | none => simp
  | some text =>
    simp only [Option.some.injEq, exists_eq_left']
    cases Target.fromStr text with
    | error e => simp
    | ok target => cases target <;> simp

theorem intendedTarget_eq (segment : String) (query : Option String) :
    intendedTarget segment query = (parseNamed segment).or (viaTarget query) := by
  unfold intendedTarget parseNamed
  cases decodeUtf8 segment with
  | none => rfl
  | some text =>
    dsimp only
    cases Target.fromStr text with
    | error e => rfl
    | ok target => cases target <;> rfl

theorem wildcard_of_encodes (text : String) (h : Lib.Encodes (Lib.utf8 segment) (Lib.utf8 text))
    (hall : Target.fromStr text = .ok .all) : Wildcard segment :=
  ⟨text, Lib.ofUtf8_eq_some_iff.2 (PercentEncoding.decodeBytes_of_encodes h), hall⟩

theorem wildcard_star : Wildcard "*" :=
  wildcard_of_encodes "*" (.plain (by decide) .nil) rfl

/-- The segment counts unless it is a plain `*`. -/
theorem namedTarget_jobs (query : Option String)
    (hpath : segments path = "jobs" :: job :: action :: segment :: rest)
    (haction : action ∈ ["attach", "output", "start"]) :
    namedTarget path query = if segment = "*" then viaTarget query else parseNamed segment := by
  unfold namedTarget named
  rw [hpath]
  dsimp only
  by_cases hstar : segment = "*"
  · rw [if_neg fun h => h.2.2 hstar, if_pos hstar]
    rfl
  · rw [if_pos ⟨rfl, haction, hstar⟩, if_neg hstar]
    rfl

theorem namedTarget_eq_iff (query : Option String)
    (hpath : segments path = "jobs" :: job :: action :: segment :: rest)
    (haction : action ∈ ["attach", "output", "start"]) :
    namedTarget path query = intendedTarget segment query ↔ ByText segment query := by
  rw [namedTarget_jobs query hpath haction, intendedTarget_eq]
  unfold ByText
  by_cases hstar : segment = "*"
  · rw [if_pos hstar, hstar, parseNamed_eq_none_iff.2 wildcard_star]
    simp
  · rw [if_neg hstar]
    cases hparse : parseNamed segment with
    | none =>
      have hwild := parseNamed_eq_none_iff.1 hparse
      simp [hstar, hwild, eq_comm]
    | some result =>
      have hplain : ¬Wildcard segment := by
        rw [← parseNamed_eq_none_iff, hparse]
        simp
      simp [hplain]

/-! ## Encodings -/

/-- Two requests name the same, up to the text that an error quotes. -/
def NamedAlike (x y : Option (Except String Target)) : Prop :=
  x.map (Except.mapError fun _ => ()) = y.map (Except.mapError fun _ => ())

theorem namedAlike_parseNamed (h : decodeBytes segment = decodeBytes segment') :
    NamedAlike (parseNamed segment) (parseNamed segment') := by
  have hdecode : decodeUtf8 segment = decodeUtf8 segment' := congrArg Lib.ofUtf8 h
  unfold parseNamed NamedAlike
  rw [hdecode]
  cases decodeUtf8 segment' with
  | none => rfl
  | some text => rfl

theorem namedAlike_viaTarget
    (h : (query.bind viaParam).map decodeBytes = (query'.bind viaParam).map decodeBytes) :
    NamedAlike (viaTarget query) (viaTarget query') := by
  unfold viaTarget
  cases hvia : query.bind viaParam with
  | none =>
    rw [hvia, Option.map_none, eq_comm, Option.map_eq_none_iff] at h
    rw [h]
    rfl
  | some value =>
    rw [hvia, Option.map_some, eq_comm, Option.map_eq_some_iff] at h
    obtain ⟨value', hvia', hbytes⟩ := h
    rw [hvia']
    exact namedAlike_parseNamed hbytes.symm

theorem namedAlike_intendedTarget (hsegment : decodeBytes segment = decodeBytes segment')
    (hvia : (query.bind viaParam).map decodeBytes = (query'.bind viaParam).map decodeBytes) :
    NamedAlike (intendedTarget segment query) (intendedTarget segment' query') := by
  have hparse := namedAlike_parseNamed hsegment
  have hvia := namedAlike_viaTarget hvia
  rw [intendedTarget_eq, intendedTarget_eq]
  unfold NamedAlike at hparse hvia ⊢
  rw [Option.map_or, Option.map_or, hparse, hvia]

theorem route_of_namedAlike {SocketAddr : Type} (router : Router SocketAddr)
    (h : NamedAlike (namedTarget path query) (namedTarget path' query')) :
    (router.route path query).mapError Prod.fst = (router.route path' query').mapError Prod.fst := by
  unfold Router.route
  unfold NamedAlike at h
  cases hname : namedTarget path query with
  | none =>
    rw [hname, Option.map_none, eq_comm, Option.map_eq_none_iff] at h
    rw [h]
  | some result =>
    rw [hname, Option.map_some, eq_comm, Option.map_eq_some_iff] at h
    obtain ⟨result', hname', heq⟩ := h
    rw [hname']
    cases result with
    | error bad =>
      cases result' with
      | error bad' => rfl
      | ok target' => cases heq
    | ok target =>
      cases result' with
      | error bad' => cases heq
      | ok target' =>
        obtain rfl : target' = target := Except.ok.inj heq
        rfl

/-- **What a request about a job names.** It names what its comment says exactly if the segment is a
plain `*` or no way to write all sleds, or `via` names none. Two such requests with the same bytes in
their segments and `via` parameters, however these are written, are routed alike. -/
theorem namedTarget_by_text (query : Option String)
    (hpath : segments path = "jobs" :: job :: action :: segment :: rest)
    (haction : action ∈ ["attach", "output", "start"]) :
    (namedTarget path query = intendedTarget segment query ↔
      segment = "*" ∨ ¬Wildcard segment ∨ viaTarget query = none) ∧
    ∀ (path' : String) (query' : Option String) (job' action' segment' : String) (rest' : List String),
      segments path' = "jobs" :: job' :: action' :: segment' :: rest' →
      action' ∈ ["attach", "output", "start"] →
      decodeBytes segment = decodeBytes segment' →
      (query.bind viaParam).map decodeBytes = (query'.bind viaParam).map decodeBytes →
      ByText segment query → ByText segment' query' →
      ∀ {SocketAddr : Type} (router : Router SocketAddr),
        (router.route path query).mapError Prod.fst = (router.route path' query').mapError Prod.fst := by
  refine ⟨namedTarget_eq_iff query hpath haction, ?_⟩
  intro path' query' job' action' segment' rest' hpath' haction' hsegment hvia htext htext' _ router
  refine route_of_namedAlike router ?_
  rw [(namedTarget_eq_iff query hpath haction).2 htext, (namedTarget_eq_iff query' hpath' haction').2 htext']
  exact namedAlike_intendedTarget hsegment hvia

end Sush

namespace Sush.Plain

attribute [local instance] world phrases percentEncoding

theorem parseNamed_cubby (segment : String) (h : decodeBytes segment = Lib.utf8 "14") :
    parseNamed segment = some (.ok (.sleds [.cubby 14])) := by
  have hdecode : decodeUtf8 segment = some "14" := Lib.ofUtf8_eq_some_iff.2 h
  rw [parseNamed, hdecode]
  rfl

theorem byText_cubby (segment : String) (h : decodeBytes segment = Lib.utf8 "14") (query : Option String) :
    ByText segment query := by
  refine .inr (.inl ?_)
  rw [← parseNamed_eq_none_iff, parseNamed_cubby segment h]
  simp

theorem viaTarget_cubby : viaTarget (some "via=14") = some (.ok (.sleds [.cubby 14])) := by
  have hvia : viaParam "via=14" = some "14" := by decide
  rw [viaTarget, Option.bind_some, hvia, Option.bind_some, parseNamed_cubby "14" (by decide)]

/-- A cubby number may be written with or without percent signs, and `via` is ignored. -/
theorem namedTarget_by_text_cubby :
    namedTarget "/jobs/j/output/1%34/stdout" (some "via=3") = intendedTarget "1%34" (some "via=3") ∧
    ((⟨⟨∅, ∅⟩, none⟩ : Router ℕ).route "/jobs/j/output/1%34/stdout" (some "via=3")).mapError Prod.fst =
      ((⟨⟨∅, ∅⟩, none⟩ : Router ℕ).route "/jobs/j/start/14" (some "wait=stop&via=%33")).mapError Prod.fst := by
  have hpath : segments "/jobs/j/output/1%34/stdout" = ["jobs", "j", "output", "1%34", "stdout"] := by decide
  have hpath' : segments "/jobs/j/start/14" = ["jobs", "j", "start", "14"] := by decide
  have hencoded := byText_cubby "1%34" (by decide)
  have hplain := byText_cubby "14" (by decide)
  have htext := namedTarget_by_text (some "via=3") hpath (by decide)
  refine ⟨htext.1.2 (hencoded _), ?_⟩
  exact htext.2 "/jobs/j/start/14" (some "wait=stop&via=%33") "j" "start" "14" [] hpath' (by decide)
    (by decide) (by decide) (hencoded _) (hplain _) _

/-- An encoded `*` is not routed by `via`, where a plain one is. -/
theorem namedTarget_encoded_wildcard :
    namedTarget "/jobs/j/start/%2A" (some "via=14") = none ∧
    intendedTarget "%2A" (some "via=14") = some (.ok (.sleds [.cubby 14])) ∧
    namedTarget "/jobs/j/start/*" (some "via=14") = some (.ok (.sleds [.cubby 14])) := by
  have hpath : segments "/jobs/j/start/%2A" = ["jobs", "j", "start", "%2A"] := by decide
  have hpath' : segments "/jobs/j/start/*" = ["jobs", "j", "start", "*"] := by decide
  have hencodes : Lib.Encodes (Lib.utf8 "%2A") (Lib.utf8 "*") := .escaped (by decide) .nil
  have hnone : parseNamed "%2A" = none := parseNamed_eq_none_iff.2 (wildcard_of_encodes "*" hencodes rfl)
  refine ⟨?_, ?_, ?_⟩
  · rw [namedTarget_jobs _ hpath (by decide), if_neg (by decide), hnone]
  · rw [intendedTarget_eq, hnone, viaTarget_cubby]
    rfl
  · rw [namedTarget_jobs _ hpath' (by decide), if_pos rfl, viaTarget_cubby]

end Sush.Plain
