import NemoRL.Environments.NemoGymSpec
import NemoRL.Experience.RouterReplay

/-!
# Routes of NeMo-Gym conversations

The chat server aligns the routes of every call as the workers do, with a default route on the
last token. NeMo-Gym takes from a later call only the routes behind the tokens that it has seen.
So the default route of a turn stays where a later call has reported another one.

## Main definitions

* `chatRoutedExperts` — the routes that the chat server returns.

## Main results

* `routes_kept_iff` — the rollouts keep all routes, and NeMo-Gym does if the default routes
  that stay are the reported ones.
-/

namespace NemoRL.Environments

open Lib Generation Experience

variable {Tok Lp R : Type}

/-! ## The chat server -/

/-- The routes of a choice of the chat server. -/
def chatRoutedExperts (output : RequestOutput) (tokenCount : ℕ) :
    Except PyError RoutedExperts := do
  let (routedExperts, _) ←
    padAndAlignRoutedExpertIndices output tokenCount tokenCount true true
  match routedExperts with
  | none => throw ⟨.runtimeError, "vLLM was asked to return routed experts for the " ++
      "OpenAI-compatible chat endpoint but the generation output did not include routed_experts."⟩
  | some routedExperts => return routedExperts

/-- Routes as nested lists, from which the tensor is built again. Without tokens or layers its
dimension is lost. -/
def routesAsList (routed : RoutedExperts) : RawRoutedExperts Route :=
  if routed.rows = [] then .shape [0]
  else if routed.numMoeLayers = 0 then .shape [routed.rows.length, 0]
  else .rows routed.rows

theorem chatRoutedExperts_complete {output : RequestOutput} {n : ℕ} {routed : RoutedExperts}
    (h : Reports output n routed) : chatRoutedExperts output n = .ok (routed.completed n n) := by
  obtain ⟨stats, halign⟩ := padAndAlign_complete h (le_refl n) true true
  unfold chatRoutedExperts
  simp only [halign, bind, Except.bind, pure, Except.pure]

/-! ## Columns of routes -/

/-- The routes of the tokens of all messages. -/
def gymRouteColumn (messageLog : List (GymMessage Tok Lp Route)) : List (Option Route) :=
  messageLog.flatMap fun message => routesOfTokens message.tokenIds.length message.routedExperts

/-- The routes of calls behind the tokens that were seen. -/
def columnFrom : ℕ → List (List Route) → List (Option Route)
  | _, [] => []
  | seen, rows :: rest => (rows.drop seen).map some ++ columnFrom rows.length rest

/-- A position has the route of the first call that reaches it. -/
theorem getElem?_columnFrom {rowss : List (List Route)} :
    ∀ {seen pos : ℕ}, (seen :: rowss.map List.length).Pairwise (· ≤ ·) → seen ≤ pos →
      (columnFrom seen rowss)[pos - seen]? =
        (rowss.find? fun rows => decide (pos < rows.length)).map fun rows => rows[pos]? := by
  induction rowss with
  | nil => intro _ _ _ _; rfl
  | cons rows rest ih =>
    intro seen pos hsorted hpos
    have hle : seen ≤ rows.length := (List.pairwise_cons.mp hsorted).1 _ (by simp)
    have hrest : (rows.length :: rest.map List.length).Pairwise (· ≤ ·) :=
      (List.pairwise_cons.mp hsorted).2
    unfold columnFrom
    by_cases hin : pos < rows.length
    · rw [List.find?_cons_of_pos (by simpa using hin),
        List.getElem?_append_left (by simp; omega), List.getElem?_map, List.getElem?_drop,
        Nat.add_sub_cancel' hpos]
      simp [hin]
    · have hbehind : pos - seen - (rows.length - seen) = pos - rows.length := by omega
      rw [List.find?_cons_of_neg (by simpa using hin),
        List.getElem?_append_right (by simp; omega), List.length_map, List.length_drop, hbehind]
      exact ih hrest (by omega)

/-- The first call that reaches a position is no longer than any other that does. -/
theorem find?_first {rowss : List (List Route)} {pos : ℕ}
    (hsorted : (rowss.map List.length).Pairwise (· ≤ ·)) {rows : List Route} (hmem : rows ∈ rowss)
    (hpos : pos < rows.length) :
    ∃ first ∈ rowss, (rowss.find? fun rows => decide (pos < rows.length)) = some first ∧
      pos < first.length ∧ first.length ≤ rows.length := by
  induction rowss with
  | nil => cases hmem
  | cons head rest ih =>
    obtain ⟨hhead, hrest⟩ := List.pairwise_cons.mp (List.map_cons ▸ hsorted)
    by_cases hin : pos < head.length
    · refine ⟨head, List.mem_cons_self, List.find?_cons_of_pos (by simpa using hin), hin, ?_⟩
      rcases List.mem_cons.mp hmem with rfl | hmem
      · exact le_refl _
      · exact hhead _ (List.mem_map_of_mem hmem)
    · rcases List.mem_cons.mp hmem with rfl | hmem
      · exact absurd hpos hin
      · obtain ⟨first, hfirst, hfind, hlow, hhigh⟩ := ih hrest hmem
        exact ⟨first, List.mem_cons_of_mem _ hfirst,
          (List.find?_cons_of_neg (by simpa using hin)).trans hfind, hlow, hhigh⟩

/-! ## The messages of a conversation -/

namespace NemoGym
variable [DecidableEq Tok] [ToString Tok] (self : NemoGym) (decode : List Tok → String)

/-- A call with its rows. -/
def HasRows (call : ModelCall Tok Lp Route) (rows : List Route) : Prop :=
  call.routedExperts = some (.rows rows) ∧ rows.length = call.tokenIds.length

omit [DecidableEq Tok] [ToString Tok] in
theorem routedExperts_of_hasRows {call : ModelCall Tok Lp Route} {rows : List Route}
    (h : HasRows call rows) : self.routedExperts call = .ok (some rows) := by
  have hlength : ¬ rows.length < call.promptTokenIds.length + call.generationTokenIds.length := by
    rw [h.2, ModelCall.tokenIds, List.length_append]
    omega
  unfold routedExperts
  simp only [h.1, if_neg hlength]

/-- The messages of a call have its routes behind the tokens that were seen. -/
theorem addCall_rows {item : OutputItem Tok Lp Route} {call : ModelCall Tok Lp Route}
    {conversation : Conversation Tok Lp Route} {rows : List Route}
    (hseen : conversation.seenTokenIds <+: call.promptTokenIds) (hrows : HasRows call rows) :
    ∃ messages : List (GymMessage Tok Lp Route),
      self.addCall decode item call conversation =
        .ok ⟨conversation.messageLog ++ messages, call.tokenIds⟩ ∧
      gymRouteColumn messages = (rows.drop conversation.seenTokenIds.length).map some := by
  have hlow := hseen.length_le
  have hlength : rows.length = call.promptTokenIds.length + call.generationTokenIds.length := by
    rw [hrows.2, ModelCall.tokenIds, List.length_append]
  obtain ⟨user, assistant, hadd, huserIds, hassistantIds, huser, hassistant, -⟩ :=
    addCall_ok self decode hseen (self.routedExperts_of_hasRows hrows)
  refine ⟨[user, assistant], hadd, ?_⟩
  have huserColumn : routesOfTokens user.tokenIds.length user.routedExperts =
      ((rows.take call.promptTokenIds.length).drop
        conversation.seenTokenIds.length).map some := by
    rw [huser]
    exact routesOfTokens_some (by simp [slice, huserIds, hlength])
  have hassistantColumn : routesOfTokens assistant.tokenIds.length assistant.routedExperts =
      (rows.drop call.promptTokenIds.length).map some := by
    rw [hassistant, ← hlength]
    simp only [Option.map_some, slice, List.take_length]
    exact routesOfTokens_some (by simp [hassistantIds, hlength])
  have hjoin : (rows.take call.promptTokenIds.length).drop conversation.seenTokenIds.length ++
      rows.drop call.promptTokenIds.length = rows.drop conversation.seenTokenIds.length := by
    rw [← List.drop_append_of_le_length (by rw [List.length_take]; omega),
      List.take_append_drop]
  simp only [gymRouteColumn, List.flatMap_cons, List.flatMap_nil, List.append_nil, huserColumn,
    hassistantColumn]
  rw [← List.map_append, hjoin]

/-- The routes of the messages are those of the calls behind the tokens before them. -/
theorem foldlM_addItem_rows {items : List (OutputItem Tok Lp Route)} :
    ∀ {conversation : Conversation Tok Lp Route} {rowss : List (List Route)},
      Contiguous conversation.seenTokenIds (modelCalls items) →
      List.Forall₂ HasRows (modelCalls items) rowss →
      ∃ conversation', items.foldlM (self.addItem decode) conversation = .ok conversation' ∧
        gymRouteColumn conversation'.messageLog = gymRouteColumn conversation.messageLog ++
          columnFrom conversation.seenTokenIds.length rowss := by
  induction items with
  | nil =>
    intro conversation rowss _ hrows
    cases hrows
    exact ⟨conversation, rfl, by simp [columnFrom]⟩
  | cons item items ih =>
    intro conversation rowss hcontiguous hrows
    rw [List.foldlM_cons]
    cases hcall : item.call with
    | none =>
      rw [modelCalls_cons_none hcall] at hcontiguous hrows
      have hitem : self.addItem decode conversation item = .ok conversation := by
        simp [addItem, hcall]
      rw [hitem]
      exact ih hcontiguous hrows
    | some call =>
      rw [modelCalls_cons_some hcall] at hcontiguous hrows
      obtain ⟨hseen, hrest⟩ := hcontiguous
      cases hrows with
      | @cons _ rows _ rest hhead htail =>
        obtain ⟨messages, hadd, hcolumn⟩ := addCall_rows self decode hseen hhead
        have hitem : self.addItem decode conversation item =
            .ok ⟨conversation.messageLog ++ messages, call.tokenIds⟩ := by
          simp only [addItem, hcall]
          exact hadd
        rw [hitem]
        have hnext : Contiguous (Conversation.mk (conversation.messageLog ++ messages)
            call.tokenIds).seenTokenIds (modelCalls items) := hrest
        obtain ⟨final, hfinal, hrouted⟩ := ih hnext htail
        refine ⟨final, hfinal, ?_⟩
        rw [hrouted]
        simp only [gymRouteColumn, List.flatMap_append] at hcolumn ⊢
        rw [hcolumn, columnFrom, hhead.2, List.append_assoc]

omit [DecidableEq Tok] [ToString Tok] in
/-- The calls of a conversation do not shrink. -/
theorem pairwise_of_contiguous {calls : List (ModelCall Tok Lp Route)} :
    ∀ {seen : List Tok} {rowss : List (List Route)}, Contiguous seen calls →
      List.Forall₂ HasRows calls rowss →
      (seen.length :: rowss.map List.length).Pairwise (· ≤ ·) := by
  induction calls with
  | nil =>
    intro _ rowss _ hrows
    cases hrows
    simp
  | cons call calls ih =>
    intro seen rowss hcontiguous hrows
    obtain ⟨hseen, hrest⟩ := hcontiguous
    cases hrows with
    | @cons _ rows _ rest hhead htail =>
      have hsorted := ih hrest htail
      rw [← hhead.2] at hsorted
      have hlow : seen.length ≤ rows.length := by
        have hle := hseen.length_le
        rw [hhead.2, ModelCall.tokenIds, List.length_append]
        omega
      rw [List.map_cons, List.pairwise_cons]
      refine ⟨fun n hn => ?_, hsorted⟩
      rcases List.mem_cons.mp hn with rfl | hn
      · exact hlow
      · exact hlow.trans ((List.pairwise_cons.mp hsorted).1 n hn)

/-- What the server returned for a call. -/
structure GymReport (numMoeLayers topk : ℕ) (call : ModelCall Tok Lp Route)
    (reported : ReportedCall) : Prop where
  promptLength_eq : reported.promptLength = call.promptTokenIds.length
  length_eq : reported.length = call.tokenIds.length
  length_pos : 0 < reported.length
  routes : ∃ output routed,
    Reports output reported.length ⟨numMoeLayers, topk, reported.rows⟩ ∧
    chatRoutedExperts output reported.length = .ok routed ∧
    call.routedExperts = some (routesAsList routed)

/-- The routes of a call with the default one at its end. -/
def alignedRows (numMoeLayers topk : ℕ) (reported : ReportedCall) : List Route :=
  (RoutedExperts.completed ⟨numMoeLayers, topk, reported.rows⟩ reported.length
    reported.length).rows

variable {numMoeLayers topk : ℕ}

omit [DecidableEq Tok] [ToString Tok] in
theorem GymReport.hasRows {call : ModelCall Tok Lp Route} {reported : ReportedCall}
    (h : GymReport numMoeLayers topk call reported) (hlayers : 0 < numMoeLayers) :
    HasRows call (alignedRows numMoeLayers topk reported) := by
  obtain ⟨output, routed, hreports, hchat, hcall⟩ := h.routes
  have hlength := hreports.length_completed (le_refl reported.length)
  rw [chatRoutedExperts_complete hreports] at hchat
  cases hchat
  have hne : (RoutedExperts.completed ⟨numMoeLayers, topk, reported.rows⟩ reported.length
      reported.length).rows ≠ [] := by
    rw [← List.length_pos_iff, hlength]
    exact h.length_pos
  have hlayers' : (RoutedExperts.completed ⟨numMoeLayers, topk, reported.rows⟩ reported.length
      reported.length).numMoeLayers ≠ 0 := Nat.pos_iff_ne_zero.mp hlayers
  refine ⟨?_, hlength.trans h.length_eq⟩
  rw [hcall, routesAsList, if_neg hne, if_neg hlayers']
  rfl

/-- What an aligned call has at its positions: reported routes and, at its end, the default. -/
structure AlignedCall (numMoeLayers topk : ℕ) (reported : ReportedCall) : Prop where
  length_pos : 0 < reported.length
  length_eq : (alignedRows numMoeLayers topk reported).length = reported.length
  before : ∀ pos, pos < reported.length - 1 → ∃ route,
    reported.rows[pos]? = some route ∧
    (alignedRows numMoeLayers topk reported)[pos]? = some route
  last : (alignedRows numMoeLayers topk reported)[reported.length - 1]? =
    some (defaultRoute numMoeLayers topk)

omit [DecidableEq Tok] [ToString Tok] in
theorem GymReport.aligned {call : ModelCall Tok Lp Route} {reported : ReportedCall}
    (h : GymReport numMoeLayers topk call reported) :
    AlignedCall numMoeLayers topk reported := by
  obtain ⟨output, routed, hreports, -, -⟩ := h.routes
  refine ⟨h.length_pos, hreports.length_completed (le_refl _), fun pos hpos => ?_,
    hreports.getElem?_completed_last h.length_pos (le_refl _)⟩
  have hlength := hreports.length_take
  simp only [List.length_take] at hlength
  have hroute := List.getElem?_eq_getElem (l := reported.rows) (i := pos) (by omega)
  exact ⟨_, hroute, (hreports.getElem?_completed hpos).trans hroute⟩

end NemoGym

/-! ## Both paths -/

open NemoGym

/-- The routes of calls that do not shrink are kept exactly if every default route before the
last generated token is a reported one. -/
theorem routesKept_columnFrom_iff {numMoeLayers topk : ℕ} {calls : List ReportedCall}
    (haligned : ∀ call ∈ calls, AlignedCall numMoeLayers topk call)
    (hsorted : (0 :: (calls.map (alignedRows numMoeLayers topk)).map List.length).Pairwise
      (· ≤ ·)) :
    RoutesKept numMoeLayers topk calls
        (columnFrom 0 (calls.map (alignedRows numMoeLayers topk))) ↔
      ∀ call ∈ calls, BeforeLastGenerated calls (call.length - 1) →
        ReportedFor calls (call.length - 1) (defaultRoute numMoeLayers topk) := by
  have hcolumn : ∀ call ∈ calls, ∀ pos, pos < call.length → ∃ first ∈ calls,
      pos < first.length ∧ first.length ≤ call.length ∧
      (columnFrom 0 (calls.map (alignedRows numMoeLayers topk)))[pos]? =
        some ((alignedRows numMoeLayers topk first)[pos]?) := by
    intro call hcall pos hpos
    have hlength := (haligned call hcall).length_eq
    obtain ⟨rows, hrows, hfind, hlow, hhigh⟩ :=
      find?_first (List.pairwise_cons.mp hsorted).2 (List.mem_map_of_mem hcall)
        (by rw [hlength]; exact hpos)
    obtain ⟨first, hfirst, rfl⟩ := List.mem_map.mp hrows
    rw [(haligned first hfirst).length_eq] at hlow hhigh
    have hget := getElem?_columnFrom hsorted (Nat.zero_le pos)
    rw [Nat.sub_zero, hfind] at hget
    exact ⟨first, hfirst, hlow, hlength ▸ hhigh, hget⟩
  constructor
  · intro h call hcall hbefore
    have hpos := (haligned call hcall).length_pos
    obtain ⟨first, hfirst, hlow, hhigh, hget⟩ := hcolumn call hcall (call.length - 1) (by omega)
    obtain ⟨route, hroute, hreported⟩ := h.reported _ hbefore
    have hlength : first.length = call.length := by omega
    rw [hget, ← hlength, (haligned first hfirst).last] at hroute
    obtain rfl : defaultRoute numMoeLayers topk = route := by simpa using hroute
    exact hreported
  · intro h
    refine RoutesKept.of_reported fun pos hbefore => ?_
    have ⟨call, hcall, later, hlater, _, hlength⟩ := hbefore
    obtain ⟨first, hfirst, hlow, -, hget⟩ := hcolumn call hcall pos (by omega)
    by_cases hin : pos < first.length - 1
    · obtain ⟨route, hroute, haligned⟩ := (haligned first hfirst).before pos hin
      exact ⟨route, by rw [hget, haligned], first, hfirst, hroute⟩
    · obtain rfl : pos = first.length - 1 := by omega
      refine ⟨defaultRoute numMoeLayers topk, by rw [hget, (haligned first hfirst).last], ?_⟩
      exact h first hfirst hbefore

/-- The rollouts keep the routes on their tokens. NeMo-Gym does exactly if, wherever the last
token of a call is before the last generated token, the default route is what some call
reported for it. -/
theorem routes_kept_iff {numMoeLayers topk : ℕ} (hlayers : 0 < numMoeLayers)
    (decode : List Tok → String) (returnRoutedExperts : Bool)
    {messageLog : List (RolloutMessage Tok Lp)} {turns : List (NativeTurn Tok Lp)}
    {nativeCalls : List ReportedCall}
    (hnative : NativeReports numMoeLayers topk (logTokens messageLog).length turns nativeCalls)
    [DecidableEq Tok] [ToString Tok] (self : NemoGym) {result : GymResult Tok Lp Route R}
    {gymCalls : List ReportedCall} (hcontiguous : Contiguous [] (modelCalls result.output))
    (hgym : List.Forall₂ (GymReport numMoeLayers topk) (modelCalls result.output) gymCalls) :
    (∃ messageLog',
      nativeRollout decode returnRoutedExperts messageLog turns = .ok messageLog' ∧
      RoutesKept numMoeLayers topk nativeCalls (routeColumn messageLog')) ∧
    ∃ processed, self.postprocessNemoGymToNemoRlResult decode result = .ok processed ∧
      (RoutesKept numMoeLayers topk gymCalls (gymRouteColumn processed.messageLog) ↔
        ∀ call ∈ gymCalls, BeforeLastGenerated gymCalls (call.length - 1) →
          ReportedFor gymCalls (call.length - 1) (defaultRoute numMoeLayers topk)) := by
  refine ⟨nativeRollout_routesKept decode returnRoutedExperts hnative, ?_⟩
  have hrows : List.Forall₂ HasRows (modelCalls result.output)
      (gymCalls.map (alignedRows numMoeLayers topk)) :=
    List.forall₂_map_right_iff.mpr (hgym.imp fun _ _ h => h.hasRows hlayers)
  have hstart : Contiguous (Conversation.mk ([] : List (GymMessage Tok Lp Route))
      []).seenTokenIds (modelCalls result.output) := hcontiguous
  obtain ⟨conversation, hfold, hcolumn⟩ :=
    foldlM_addItem_rows self decode hstart hrows
  simp only [postprocessNemoGymToNemoRlResult, hfold, bind, Except.bind, pure, Except.pure]
  refine ⟨_, rfl, ?_⟩
  have haligned : ∀ call ∈ gymCalls, AlignedCall numMoeLayers topk call :=
    ((List.forall₂_and_left _ _).mp (hgym.flip.imp fun _ _ h => ⟨h.aligned, h⟩)).1
  rw [show gymRouteColumn conversation.messageLog = columnFrom 0
    (gymCalls.map (alignedRows numMoeLayers topk)) from hcolumn]
  exact routesKept_columnFrom_iff haligned (pairwise_of_contiguous hcontiguous hrows)

/-- An output item of a call whose tokens were all routed to the second expert. The last route
is the default one. -/
def routedItem (promptTokenIds generationTokenIds : List ℕ) : OutputItem ℕ ℕ Route where
  type := "message"
  content := []
  summary := []
  call := some ⟨promptTokenIds, generationTokenIds, [],
    some (.rows (List.replicate (promptTokenIds.length + generationTokenIds.length - 1) [[1]] ++
      [defaultRoute 1 1]))⟩

/-- The report of such a call. -/
def routedReport (tokenCount : ℕ) : RequestOutput :=
  ⟨none, some (.tokens ⟨1, 1, List.replicate (tokenCount - 1) [[1]]⟩), none⟩

/-- An environment that needs routed experts. -/
def routerReplayGym : NemoGym := ⟨none, none, true, 1, le_refl 1⟩

/-- A prompt of one token. -/
def promptLog : List (RolloutMessage ℕ ℕ) := [⟨"user", "", [5], none, none⟩]

/-- A turn with a response and an observation of one token. -/
def routedTurn : NativeTurn ℕ ℕ :=
  ⟨⟨[6], [], [], false, routedReport 2⟩, "environment", "", [7]⟩

theorem routes_kept_iff_oneTurn :
    (∃ messageLog',
      nativeRollout (fun _ => "") true promptLog [routedTurn] = .ok messageLog' ∧
      RoutesKept 1 1 [⟨1, 2, [[[1]]]⟩] (routeColumn messageLog')) ∧
    ∃ processed, routerReplayGym.postprocessNemoGymToNemoRlResult (fun _ => "")
        (⟨[routedItem [5] [6]], 0⟩ : GymResult ℕ ℕ Route ℕ) = .ok processed ∧
      (RoutesKept 1 1 [⟨1, 2, [[[1]]]⟩] (gymRouteColumn processed.messageLog) ↔
        ∀ call ∈ [(⟨1, 2, [[[1]]]⟩ : ReportedCall)],
          BeforeLastGenerated [⟨1, 2, [[[1]]]⟩] (call.length - 1) →
            ReportedFor [⟨1, 2, [[[1]]]⟩] (call.length - 1) (defaultRoute 1 1)) :=
  have hnative : NativeReports 1 1 (logTokens promptLog).length [routedTurn]
      [⟨1, 2, [[[1]]]⟩] := ⟨⟨rfl, rfl, rfl, .inl rfl⟩, trivial⟩
  routes_kept_iff (by decide) _ _ hnative _ ⟨List.nil_prefix, trivial⟩
    (.cons ⟨rfl, rfl, by decide, routedReport 2, _, ⟨rfl, .inl rfl⟩, rfl, rfl⟩ .nil)

/-- The last token of the first turn keeps the default route, although the second turn reports
another one. -/
theorem secondTurn_keepsDefault :
    ¬ ∀ (self : NemoGym) (result : GymResult ℕ ℕ Route ℕ) (gymCalls : List ReportedCall),
      Contiguous [] (modelCalls result.output) →
      List.Forall₂ (GymReport 1 1) (modelCalls result.output) gymCalls →
      ∀ processed, self.postprocessNemoGymToNemoRlResult (fun _ => "") result = .ok processed →
        RoutesKept 1 1 gymCalls (gymRouteColumn processed.messageLog) := by
  intro h
  have hkept := h routerReplayGym ⟨[routedItem [5] [6], routedItem [5, 6, 7] [8]], 0⟩
    [⟨1, 2, [[[1]]]⟩, ⟨3, 4, [[[1]], [[1]], [[1]]]⟩]
    ⟨List.nil_prefix, by decide, trivial⟩
    (.cons ⟨rfl, rfl, by decide, routedReport 2, _, ⟨rfl, .inl rfl⟩, rfl, rfl⟩
      (.cons ⟨rfl, rfl, by decide, routedReport 4, _, ⟨rfl, .inl rfl⟩, rfl, rfl⟩ .nil)) _ rfl
  obtain ⟨route, hroute, call, hcall, hreported⟩ :=
    hkept.reported 1 ⟨_, List.mem_cons_of_mem _ List.mem_cons_self, 3, by decide⟩
  obtain rfl : [[0]] = route := Option.some.inj (Option.some.inj hroute)
  rcases List.mem_cons.mp hcall with rfl | hcall
  · exact absurd hreported (by decide)
  · rcases List.mem_cons.mp hcall with rfl | hcall
    · exact absurd hreported (by decide)
    · cases hcall

end NemoRL.Environments
