import Mathlib.Data.List.Perm.Subperm
import NextApi.Gateway.Outbound

/-!
# Images by address, for Gemini

Gemini takes no address of an image, so a request that is converted for it has its images
downloaded and put inline, the first ten addresses of it. What a download gave is kept for all
candidates of the request, failures as well; an image without a download, or of another type than
Gemini knows, is dropped and recorded as degraded.

The number of downloads is one of the request, not of a candidate: every candidate converts the same
body, so it wants the same addresses (`resolved_of_run`).
-/

set_option autoImplicit false

namespace NextApi.Media

open Json Ir Gateway Upstream

/-- What a download gives: the bytes, in base64, and their type, or why there are none. -/
abbrev Fetched := Except String (String × String)

def geminiImageMimes : List String :=
  ["image/png", "image/jpeg", "image/webp", "image/heic", "image/heif"]

def maxUrlImagesPerRequest : ℕ := 10

/-- The downloads of a request: what is kept of them, and all that there were, in order. -/
structure Images where
  cache : Table String Fetched := ∅
  log : List (String × Fetched) := []

/-! ### Resolving -/

def addUrl (urls : List String) : IrPart → List String
  | .imageUrl url => if url ∈ urls then urls else urls ++ [url]
  | _ => urls

def messageUrls (urls : List String) (m : IrMessage) : List String :=
  match m.content with
  | some (.parts parts) => parts.foldl addUrl urls
  | _ => urls

/-- The addresses of the images of a request, each once. -/
def collectImageUrls (ir : IrRequest) : List String := ir.messages.foldl messageUrls []

section Downloads

-- what the download of an address gives, by the number of downloads before it
variable (download : ℕ → String → Fetched)

def fetch (images : Images) (url : String) : Images :=
  let r := download images.log.length url
  { cache := images.cache.insert url r, log := images.log ++ [(url, r)] }

/-- Downloads the addresses that nothing is kept for. -/
def fetchAll (urls : List String) (images : Images) : Images :=
  (urls.filter fun url ↦ (images.cache.lookup url).isNone).foldl (fetch download) images

/-- An image by address becomes one with its bytes, or is dropped. -/
def rewritePart (cache : Table String Fetched) : IrPart → Option IrPart × ConvCtx
  | .imageUrl url =>
    match cache.lookup url with
    | some (.ok (b64, mime)) =>
      if mime ∈ geminiImageMimes then (some (.imageInline mime b64), [])
      else (none, degrade "image_url" ("Gemini 不支持的图片类型 " ++ mime ++ "（" ++ url ++ "），丢弃"))
    | some (.error e) => (none, degrade "image_url" ("图片下载失败（" ++ url ++ "）: " ++ e ++ "，丢弃"))
    | none =>
      (none, degrade "image_url" ("单请求 URL 图片超过上限 " ++ toString maxUrlImagesPerRequest ++
        "，丢弃（" ++ url ++ "）"))
  | other => (some other, [])

def rewriteMessage (cache : Table String Fetched) (m : IrMessage) : IrMessage × ConvCtx :=
  match m.content with
  | some (.parts parts) =>
    let (out, ctx) := filterMapCtx (rewritePart cache) parts
    ({ m with content := some (.parts out) }, ctx)
  | _ => (m, [])

def rewriteWithCache (ir : IrRequest) (cache : Table String Fetched) : IrRequest × ConvCtx :=
  ({ ir with messages := ir.messages.map fun m ↦ (rewriteMessage cache m).1 },
    ir.messages.flatMap fun m ↦ (rewriteMessage cache m).2)

/-- Collects, downloads and rewrites. -/
def resolveUrlImages (ir : IrRequest) (images : Images) : IrRequest × ConvCtx × Images :=
  let urls := collectImageUrls ir
  if urls.isEmpty then (ir, [], images)
  else
    let images := fetchAll download (urls.take (min urls.length maxUrlImagesPerRequest)) images
    let (ir, ctx) := rewriteWithCache ir images.cache
    (ir, ctx, images)

/-- A request for Gemini, with the model of the upstream. -/
def geminiRequest (ir : IrRequest) (stream : Bool) (upstreamModel : String) : IrRequest :=
  { ir with model := upstreamModel, stream := stream }

section Builder

variable [SerdeJson] (limit : ℕ)

/-- The body for an upstream, with the images of the request downloaded if it is one of Gemini. -/
def buildOutboundAny (entry : Protocol) (mode : Mode) (body : Value) (stream : Bool)
    (upstreamModel : String) (up : Channel) (images : Images) :
    Except Panic (Except ConvertError Outbound) × Images :=
  match mode with
  | .convert .gemini =>
    match requestToIr entry body with
    | .error e => (.ok (.error e), images)
    | .ok (ir, ctx) =>
      match rejectEmptyMessages ir ctx with
      | .error e => (.ok (.error e), images)
      | .ok () =>
        let (resolved, imageCtx, images) :=
          resolveUrlImages download (geminiRequest ir stream upstreamModel) images
        let (out, writeCtx) := requestFromIr .gemini resolved
        ((rewriteBody limit out none (overrides up.extra)).map fun b ↦
          .ok ⟨b, .gemini, mode, degradedHeader (ctx ++ imageCtx ++ writeCtx)⟩, images)
  | _ => (buildOutbound limit entry mode body stream upstreamModel up, images)

/-- What a candidate adds to the request. -/
structure Target where
  mode : Mode
  upstreamModel : String
  up : Channel

/-- The downloads after some candidates. -/
def afterTargets (entry : Protocol) (body : Value) (stream : Bool) (targets : List Target) :
    Images :=
  targets.foldl (fun images t ↦ (buildOutboundAny download limit entry t.mode body stream
    t.upstreamModel t.up images).2) {}

end Builder

end Downloads

/-! ### What becomes of the parts -/

/-- An image of a type that Gemini knows was downloaded from this address. -/
def Usable (log : List (String × Fetched)) (url b64 mime : String) : Prop :=
  (url, .ok (b64, mime)) ∈ log ∧ mime ∈ geminiImageMimes

/-- The parts of a message, what becomes of them, and what is recorded. -/
inductive PartsResolved (log : List (String × Fetched)) :
    List IrPart → List IrPart → ConvCtx → Prop
  | nil : PartsResolved log [] [] []
  | kept {p : IrPart} {ps out : List IrPart} {ctx : ConvCtx} :
    (∀ url, p ≠ .imageUrl url) → PartsResolved log ps out ctx →
      PartsResolved log (p :: ps) (p :: out) ctx
  | inlined {url b64 mime : String} {ps out : List IrPart} {ctx : ConvCtx} :
    Usable log url b64 mime → PartsResolved log ps out ctx →
      PartsResolved log (.imageUrl url :: ps) (.imageInline mime b64 :: out) ctx
  | dropped {url reason : String} {ps out : List IrPart} {ctx : ConvCtx} :
    (∀ b64 mime, ¬ Usable log url b64 mime) → PartsResolved log ps out ctx →
      PartsResolved log (.imageUrl url :: ps) out (⟨"image_url", reason⟩ :: ctx)

/-- A message, what becomes of it, and what is recorded: only its parts change. -/
inductive MessageResolved (log : List (String × Fetched)) :
    IrMessage → IrMessage → ConvCtx → Prop
  | parts {m : IrMessage} {parts out : List IrPart} {ctx : ConvCtx} :
    m.content = some (.parts parts) → PartsResolved log parts out ctx →
      MessageResolved log m { m with content := some (.parts out) } ctx
  | other {m : IrMessage} : (∀ parts, m.content ≠ some (.parts parts)) → MessageResolved log m m []

inductive MessagesResolved (log : List (String × Fetched)) :
    List IrMessage → List IrMessage → ConvCtx → Prop
  | nil : MessagesResolved log [] [] []
  | cons {m m' : IrMessage} {ms ms' : List IrMessage} {ctx ctx' : ConvCtx} :
    MessageResolved log m m' ctx → MessagesResolved log ms ms' ctx' →
      MessagesResolved log (m :: ms) (m' :: ms') (ctx ++ ctx')

/-- No image by address is left. -/
def NoUrlImages (ir : IrRequest) : Prop :=
  ∀ m ∈ ir.messages, ∀ parts, m.content = some (.parts parts) → ∀ url, .imageUrl url ∉ parts

/-- What becomes of a request whose images were downloaded. -/
structure Resolved (log : List (String × Fetched)) (ir resolved : IrRequest) (ctx : ConvCtx) :
    Prop where
  frame : resolved = { ir with messages := resolved.messages }
  messages : MessagesResolved log ir.messages resolved.messages ctx
  noUrls : NoUrlImages resolved

theorem PartsResolved.noUrls {log : List (String × Fetched)} {ps out : List IrPart} {ctx : ConvCtx}
    (h : PartsResolved log ps out ctx) (url : String) : .imageUrl url ∉ out := by
  induction h with
  | nil => exact List.not_mem_nil
  | kept hp _ ih =>
    intro hmem
    rcases List.mem_cons.1 hmem with heq | hmem
    · exact hp url heq.symm
    · exact ih hmem
  | inlined _ _ ih =>
    intro hmem
    rcases List.mem_cons.1 hmem with heq | hmem
    · exact nomatch heq
    · exact ih hmem
  | dropped _ _ ih => exact ih

theorem MessagesResolved.noUrls {log : List (String × Fetched)} {ms ms' : List IrMessage}
    {ctx : ConvCtx} (h : MessagesResolved log ms ms' ctx) :
    ∀ m ∈ ms', ∀ parts, m.content = some (.parts parts) → ∀ url, .imageUrl url ∉ parts := by
  induction h with
  | nil => exact fun _ hm ↦ absurd hm List.not_mem_nil
  | cons hmessage _ ih =>
    refine List.forall_mem_cons.2 ⟨fun parts hparts ↦ ?_, ih⟩
    cases hmessage with
    | parts _ hresolved =>
      obtain rfl := IrContent.parts.inj (Option.some.inj hparts)
      exact hresolved.noUrls
    | other hnone => exact absurd hparts (hnone parts)

/-! ### The addresses of a request -/

theorem nodup_addUrl {urls : List String} (h : urls.Nodup) (p : IrPart) :
    (addUrl urls p).Nodup := by
  cases p with
  | imageUrl url =>
    rw [addUrl]
    split
    · exact h
    · next hnot =>
      exact List.nodup_append.2 ⟨h, List.nodup_singleton url, fun other hother _ hurl heq ↦
        hnot (List.mem_singleton.1 hurl ▸ heq ▸ hother)⟩
  | _ => exact h

theorem mem_addUrl {urls : List String} {p : IrPart} {url : String} :
    url ∈ addUrl urls p ↔ url ∈ urls ∨ p = .imageUrl url := by
  cases p with
  | imageUrl other =>
    rw [addUrl, IrPart.imageUrl.injEq]
    split
    · next hmem => exact (or_iff_left_of_imp fun heq ↦ heq ▸ hmem).symm
    · rw [List.mem_append, List.mem_singleton, eq_comm]
  | _ => exact (or_iff_left fun heq ↦ nomatch heq).symm

theorem nodup_foldl_addUrl {urls : List String} (h : urls.Nodup) (parts : List IrPart) :
    (parts.foldl addUrl urls).Nodup := by
  induction parts generalizing urls with
  | nil => exact h
  | cons p rest ih => exact ih (nodup_addUrl h p)

theorem mem_foldl_addUrl {urls : List String} {parts : List IrPart} {url : String} :
    url ∈ parts.foldl addUrl urls ↔ url ∈ urls ∨ .imageUrl url ∈ parts := by
  induction parts generalizing urls with
  | nil => exact (or_iff_left List.not_mem_nil).symm
  | cons p rest ih =>
    rw [List.foldl_cons, ih, mem_addUrl, List.mem_cons, or_assoc, eq_comm]

theorem nodup_messageUrls {urls : List String} (h : urls.Nodup) (m : IrMessage) :
    (messageUrls urls m).Nodup := by
  rw [messageUrls]
  split
  · exact nodup_foldl_addUrl h _
  · exact h

theorem mem_messageUrls {urls : List String} {m : IrMessage} {url : String} :
    url ∈ messageUrls urls m ↔
      url ∈ urls ∨ ∃ parts, m.content = some (.parts parts) ∧ .imageUrl url ∈ parts := by
  rw [messageUrls]
  split
  · next parts hparts =>
    rw [mem_foldl_addUrl]
    refine or_congr_right ⟨fun hmem ↦ ⟨parts, hparts, hmem⟩, ?_⟩
    rintro ⟨other, hother, hmem⟩
    obtain rfl := IrContent.parts.inj (Option.some.inj (hparts.symm.trans hother))
    exact hmem
  · next hnone =>
    exact (or_iff_left fun ⟨parts, hparts, _⟩ ↦ hnone parts hparts).symm

theorem nodup_collectImageUrls (ir : IrRequest) : (collectImageUrls ir).Nodup := by
  have hfold (messages : List IrMessage) {urls : List String} (h : urls.Nodup) :
      (messages.foldl messageUrls urls).Nodup := by
    induction messages generalizing urls with
    | nil => exact h
    | cons m rest ih => exact ih (nodup_messageUrls h m)
  exact hfold ir.messages List.nodup_nil

theorem mem_collectImageUrls {ir : IrRequest} {url : String} :
    url ∈ collectImageUrls ir ↔ ∃ m ∈ ir.messages, ∃ parts, m.content = some (.parts parts) ∧
      .imageUrl url ∈ parts := by
  have hfold (messages : List IrMessage) (urls : List String) :
      url ∈ messages.foldl messageUrls urls ↔ url ∈ urls ∨ ∃ m ∈ messages, ∃ parts,
        m.content = some (.parts parts) ∧ .imageUrl url ∈ parts := by
    induction messages generalizing urls with
    | nil => exact (or_iff_left fun ⟨_, hm, _⟩ ↦ List.not_mem_nil hm).symm
    | cons m rest ih =>
      rw [List.foldl_cons, ih, mem_messageUrls, List.exists_mem_cons_iff, or_assoc]
  exact (hfold ir.messages []).trans (or_iff_right List.not_mem_nil)

/-! ### Downloads -/

/-- What is kept is what was downloaded, every address once, and of these addresses only. -/
structure Images.Sound (urls : List String) (images : Images) : Prop where
  once : (images.log.map Prod.fst).Nodup
  within : images.log.map Prod.fst ⊆ urls
  agrees : ∀ url r, images.cache.lookup url = some r ↔ (url, r) ∈ images.log

theorem Images.sound_init (urls : List String) : ({} : Images).Sound urls where
  once := List.nodup_nil
  within := List.nil_subset urls
  agrees url r := by
    rw [Table.lookup_empty]
    exact iff_of_false nofun List.not_mem_nil

/-- An address without a download is not among the downloads. -/
theorem Images.Sound.notMem {urls : List String} {images : Images} (h : images.Sound urls)
    {url : String} (hnone : images.cache.lookup url = none) :
    url ∉ images.log.map Prod.fst := by
  intro hmem
  obtain ⟨⟨other, r⟩, hlog, rfl⟩ := List.mem_map.1 hmem
  exact nomatch hnone.symm.trans ((h.agrees other r).2 hlog)

section Downloads

variable {download : ℕ → String → Fetched}

theorem Images.Sound.fetch {urls : List String} {images : Images} (h : images.Sound urls)
    {url : String} (hurl : url ∈ urls) (hnone : images.cache.lookup url = none) :
    (fetch download images url).Sound urls := by
  have hnot := h.notMem hnone
  have hkeys : (Media.fetch download images url).log.map Prod.fst =
      images.log.map Prod.fst ++ [url] := List.map_append
  constructor
  · rw [hkeys]
    exact List.nodup_append.2 ⟨h.once, List.nodup_singleton url, fun other hother _ hlast heq ↦
      hnot (List.mem_singleton.1 hlast ▸ heq ▸ hother)⟩
  · rw [hkeys]
    exact List.append_subset.2 ⟨h.within, List.cons_subset.2 ⟨hurl, List.nil_subset urls⟩⟩
  · intro other r
    show (images.cache.insert url _).lookup other = some r ↔ (other, r) ∈ images.log ++ [(url, _)]
    rw [Table.lookup_insert, List.mem_append, List.mem_singleton, Prod.mk.injEq]
    by_cases heq : url = other
    · subst heq
      rw [if_pos rfl]
      have hlog : (url, r) ∉ images.log := fun hmem ↦ hnot (List.mem_map.2 ⟨_, hmem, rfl⟩)
      rw [or_iff_right hlog, and_iff_right rfl, Option.some.injEq, eq_comm]
    · rw [if_neg heq, h.agrees]
      exact (or_iff_left fun hlast ↦ heq hlast.1.symm).symm

/-- What an address that is not downloaded had is kept. -/
theorem lookup_fetch_of_ne {images : Images} {url other : String} (h : url ≠ other) :
    (fetch download images url).cache.lookup other = images.cache.lookup other :=
  (Table.lookup_insert _ _ _ _).trans (if_neg h)

theorem sound_foldl_fetch {urls pending : List String} {images : Images} (h : images.Sound urls)
    (hnodup : pending.Nodup) (hsub : pending ⊆ urls)
    (hnone : ∀ url ∈ pending, images.cache.lookup url = none) :
    (pending.foldl (fetch download) images).Sound urls := by
  induction pending generalizing images with
  | nil => exact h
  | cons url rest ih =>
    obtain ⟨hnot, hrest⟩ := List.nodup_cons.1 hnodup
    obtain ⟨hurl, hsub⟩ := List.cons_subset.1 hsub
    obtain ⟨hfirst, hnone⟩ := List.forall_mem_cons.1 hnone
    refine ih (h.fetch hurl hfirst) hrest hsub fun other hother ↦ ?_
    have hne : url ≠ other := fun heq ↦ hnot (heq ▸ hother)
    rw [lookup_fetch_of_ne hne, hnone other hother]

theorem Images.Sound.fetchAll {urls : List String} {images : Images} (h : images.Sound urls)
    (hnodup : urls.Nodup) : (fetchAll download urls images).Sound urls := by
  refine sound_foldl_fetch h (hnodup.filter _) (List.filter_subset_self _) fun url hurl ↦ ?_
  exact Option.isNone_iff_eq_none.1 (List.mem_filter.1 hurl).2

/-! ### Rewriting -/

/-- An image whose download can be used is put inline, any other is dropped. -/
theorem rewritePart_url {urls : List String} {images : Images} (h : images.Sound urls)
    (url : String) :
    (∃ b64 mime, Usable images.log url b64 mime ∧
      rewritePart images.cache (.imageUrl url) = (some (.imageInline mime b64), [])) ∨
    ∃ reason, (∀ b64 mime, ¬ Usable images.log url b64 mime) ∧
      rewritePart images.cache (.imageUrl url) = (none, [⟨"image_url", reason⟩]) := by
  rw [rewritePart]
  split
  · next b64 mime hlookup =>
    have hlog := (h.agrees url _).1 hlookup
    split
    · next hmime => exact .inl ⟨b64, mime, ⟨hlog, hmime⟩, rfl⟩
    · next hmime =>
      refine .inr ⟨_, fun other otherMime husable ↦ hmime ?_, rfl⟩
      have hsame := hlookup.symm.trans ((h.agrees url _).2 husable.1)
      rw [(Prod.mk.inj (Except.ok.inj (Option.some.inj hsame))).2]
      exact husable.2
  · next e hlookup =>
    refine .inr ⟨_, fun other otherMime husable ↦ ?_, rfl⟩
    exact nomatch Option.some.inj (hlookup.symm.trans ((h.agrees url _).2 husable.1))
  · next hlookup =>
    refine .inr ⟨_, fun other otherMime husable ↦ ?_, rfl⟩
    exact nomatch hlookup.symm.trans ((h.agrees url _).2 husable.1)

theorem partsResolved_rewrite {urls : List String} {images : Images} (h : images.Sound urls)
    (parts : List IrPart) :
    PartsResolved images.log parts (filterMapCtx (rewritePart images.cache) parts).1
      (filterMapCtx (rewritePart images.cache) parts).2 := by
  induction parts with
  | nil => exact .nil
  | cons p rest ih =>
    have hcons (q : Option IrPart) (ctx : ConvCtx) (hp : rewritePart images.cache p = (q, ctx)) :
        filterMapCtx (rewritePart images.cache) (p :: rest) =
          (q.toList ++ (filterMapCtx (rewritePart images.cache) rest).1,
            ctx ++ (filterMapCtx (rewritePart images.cache) rest).2) := by
      rw [filterMapCtx, filterMapCtx, List.filterMap_cons, List.flatMap_cons, hp]
      cases q <;> rfl
    by_cases hurl : ∃ url, p = .imageUrl url
    · obtain ⟨url, rfl⟩ := hurl
      rcases rewritePart_url h url with ⟨b64, mime, husable, hp⟩ | ⟨reason, hunusable, hp⟩
      · rw [hcons _ _ hp]
        exact .inlined husable ih
      · rw [hcons _ _ hp]
        exact .dropped hunusable ih
    · have hp : rewritePart images.cache p = (some p, []) := by
        cases p with
        | imageUrl url => exact absurd ⟨url, rfl⟩ hurl
        | _ => rfl
      rw [hcons _ _ hp]
      exact .kept (fun url heq ↦ hurl ⟨url, heq⟩) ih

example :
    let cache := ((∅ : Table String Fetched).insert "https://a.com/ok.png"
      (.ok ("QUJD", "image/png"))).insert "https://a.com/gif.gif" (.ok ("R0lG", "image/gif"))
    (filterMapCtx (rewritePart cache) [.text "a", .imageUrl "https://a.com/gif.gif",
      .imageUrl "https://a.com/ok.png", .imageUrl "https://a.com/missed.png", .text "b"]).1 =
        [.text "a", .imageInline "image/png" "QUJD", .text "b"] := by decide +kernel

theorem messageResolved_rewrite {urls : List String} {images : Images} (h : images.Sound urls)
    (m : IrMessage) :
    MessageResolved images.log m (rewriteMessage images.cache m).1
      (rewriteMessage images.cache m).2 := by
  rw [rewriteMessage]
  split
  · next parts hparts => exact .parts hparts (partsResolved_rewrite h parts)
  · next hnone => exact .other hnone

theorem messagesResolved_rewrite {urls : List String} {images : Images} (h : images.Sound urls)
    (messages : List IrMessage) :
    MessagesResolved images.log messages
      (messages.map fun m ↦ (rewriteMessage images.cache m).1)
      (messages.flatMap fun m ↦ (rewriteMessage images.cache m).2) := by
  induction messages with
  | nil => exact .nil
  | cons m rest ih => exact .cons (messageResolved_rewrite h m) ih

theorem resolved_rewrite {urls : List String} {images : Images} (h : images.Sound urls)
    (ir : IrRequest) :
    Resolved images.log ir (rewriteWithCache ir images.cache).1
      (rewriteWithCache ir images.cache).2 := by
  have hmessages := messagesResolved_rewrite h ir.messages
  exact ⟨rfl, hmessages, hmessages.noUrls⟩

theorem partsResolved_self {log : List (String × Fetched)} {parts : List IrPart}
    (h : ∀ url, .imageUrl url ∉ parts) : PartsResolved log parts parts [] := by
  induction parts with
  | nil => exact .nil
  | cons p rest ih =>
    refine .kept (fun url heq ↦ h url (heq ▸ List.mem_cons_self)) (ih fun url hmem ↦ ?_)
    exact h url (List.mem_cons_of_mem p hmem)

/-- A request without images by address is left as it is. -/
theorem resolved_self {log : List (String × Fetched)} {ir : IrRequest} (h : NoUrlImages ir) :
    Resolved log ir ir [] := by
  have hself : ∀ messages : List IrMessage,
      (∀ m ∈ messages, ∀ parts, m.content = some (.parts parts) → ∀ url, .imageUrl url ∉ parts) →
        MessagesResolved log messages messages [] := by
    intro messages hnone
    induction messages with
    | nil => exact .nil
    | cons m rest ih =>
      obtain ⟨hfirst, hrest⟩ := List.forall_mem_cons.1 hnone
      have hmessage : MessageResolved log m m [] := by
        by_cases hparts : ∃ parts, m.content = some (.parts parts)
        · obtain ⟨parts, hparts⟩ := hparts
          have hresolved : MessageResolved log m { m with content := some (.parts parts) } [] :=
            .parts hparts (partsResolved_self (hfirst parts hparts))
          rwa [← hparts] at hresolved
        · exact .other fun parts heq ↦ hparts ⟨parts, heq⟩
      exact .cons hmessage (ih hrest)
  exact ⟨rfl, hself ir.messages h, h⟩

/-- The images of a request are resolved, and the downloads stay within its first addresses. -/
theorem resolveUrlImages_spec {ir : IrRequest} {images : Images}
    (h : images.Sound ((collectImageUrls ir).take maxUrlImagesPerRequest)) :
    (resolveUrlImages download ir images).2.2.Sound
        ((collectImageUrls ir).take maxUrlImagesPerRequest) ∧
      Resolved (resolveUrlImages download ir images).2.2.log ir
        (resolveUrlImages download ir images).1 (resolveUrlImages download ir images).2.1 := by
  rw [resolveUrlImages]
  split
  · next hempty =>
    have hnone : collectImageUrls ir = [] := List.isEmpty_iff.1 hempty
    refine ⟨h, resolved_self fun m hm parts hparts url hurl ↦ ?_⟩
    have hmem := mem_collectImageUrls.2 ⟨m, hm, parts, hparts, hurl⟩
    rw [hnone] at hmem
    exact List.not_mem_nil hmem
  · rw [Nat.min_comm, List.take_eq_take_min.symm]
    have hsound : (fetchAll download ((collectImageUrls ir).take maxUrlImagesPerRequest)
        images).Sound ((collectImageUrls ir).take maxUrlImagesPerRequest) :=
      h.fetchAll ((List.take_sublist _ _).nodup (nodup_collectImageUrls ir))
    exact ⟨hsound, resolved_rewrite hsound ir⟩

/-! ### Runs -/

section Runs

variable [SerdeJson] {limit : ℕ}

/-- The addresses that a request may be downloaded from. -/
def wanted (entry : Protocol) (body : Value) : List String :=
  match requestToIr entry body with
  | .ok (ir, _) => (collectImageUrls ir).take maxUrlImagesPerRequest
  | .error _ => []

theorem length_wanted_le (entry : Protocol) (body : Value) :
    (wanted entry body).length ≤ maxUrlImagesPerRequest := by
  rw [wanted]
  split
  · exact List.length_take_le _ _
  · exact Nat.zero_le _

theorem wanted_eq {entry : Protocol} {body : Value} {ir : IrRequest} {ctx : ConvCtx}
    (hread : requestToIr entry body = .ok (ir, ctx)) (stream : Bool) (upstreamModel : String) :
    wanted entry body =
      (collectImageUrls (geminiRequest ir stream upstreamModel)).take maxUrlImagesPerRequest := by
  rw [wanted, hread]
  rfl

/-- A body for Gemini is the request with its images resolved. -/
theorem buildOutboundAny_gemini {entry : Protocol} {body : Value} {ir : IrRequest} {ctx : ConvCtx}
    (hread : requestToIr entry body = .ok (ir, ctx)) (hne : ir.messages ≠ []) (stream : Bool)
    (upstreamModel : String) (up : Channel) {images after : Images} {resolved : IrRequest}
    {imageCtx : ConvCtx}
    (hresolve : resolveUrlImages download (geminiRequest ir stream upstreamModel) images =
      (resolved, imageCtx, after)) :
    buildOutboundAny download limit entry (.convert .gemini) body stream upstreamModel up images =
      ((rewriteBody limit (requestFromIr .gemini resolved).1 none (overrides up.extra)).map
        fun b ↦ .ok ⟨b, .gemini, .convert .gemini,
          degradedHeader (ctx ++ imageCtx ++ (requestFromIr .gemini resolved).2)⟩, after) := by
  have haccept : rejectEmptyMessages ir ctx = .ok () := by
    rw [rejectEmptyMessages, if_pos]
    rw [List.isEmpty_eq_false_iff.2 hne]
    rfl
  rw [buildOutboundAny, hread]
  dsimp only
  rw [haccept]
  dsimp only
  rw [hresolve]

theorem sound_buildOutboundAny {entry : Protocol} {body : Value} {images : Images}
    (h : images.Sound (wanted entry body)) (mode : Mode) (stream : Bool) (upstreamModel : String)
    (up : Channel) :
    (buildOutboundAny download limit entry mode body stream upstreamModel up images).2.Sound
      (wanted entry body) := by
  by_cases hmode : mode = .convert .gemini
  · subst hmode
    cases hread : requestToIr entry body with
    | error e =>
      rw [buildOutboundAny, hread]
      exact h
    | ok read =>
      obtain ⟨ir, ctx⟩ := read
      by_cases hempty : ir.messages = []
      · rw [buildOutboundAny, hread]
        dsimp only
        rw [rejectEmptyMessages, hempty]
        exact h
      · have hwanted := wanted_eq hread stream upstreamModel
        rw [buildOutboundAny_gemini hread hempty stream upstreamModel up rfl]
        rw [hwanted] at h ⊢
        exact (resolveUrlImages_spec h).1
  · have hother : buildOutboundAny download limit entry mode body stream upstreamModel up images =
        (buildOutbound limit entry mode body stream upstreamModel up, images) := by
      rw [buildOutboundAny.eq_def]
      split
      · exact absurd rfl hmode
      · rfl
    rw [hother]
    exact h

theorem sound_afterTargets (entry : Protocol) (body : Value) (stream : Bool)
    (targets : List Target) :
    (afterTargets download limit entry body stream targets).Sound (wanted entry body) := by
  have hrun {images : Images} (h : images.Sound (wanted entry body)) (targets : List Target) :
      (targets.foldl (fun images t ↦ (buildOutboundAny download limit entry t.mode body stream
        t.upstreamModel t.up images).2) images).Sound (wanted entry body) := by
    induction targets generalizing images with
    | nil => exact h
    | cons t rest ih => exact ih (sound_buildOutboundAny h t.mode stream t.upstreamModel t.up)
  exact hrun (Images.sound_init _) targets

/-- Over all candidates of a request no address is downloaded from twice, and at most ten are; every
candidate of Gemini gets the request with its images by address put inline or dropped. -/
theorem resolved_of_run (download : ℕ → String → Fetched) (limit : ℕ) (entry : Protocol)
    (body : Value) (stream : Bool) (targets : List Target) :
    let images := afterTargets download limit entry body stream targets
    (images.log.map Prod.fst).Nodup ∧ images.log.length ≤ 10 ∧
    ∀ ir ctx, requestToIr entry body = .ok (ir, ctx) → ir.messages ≠ [] → ∀ upstreamModel up,
      ∃ resolved imageCtx after,
        Resolved after.log (geminiRequest ir stream upstreamModel) resolved imageCtx ∧
        buildOutboundAny download limit entry (.convert .gemini) body stream upstreamModel up
            images =
          ((rewriteBody limit (requestFromIr .gemini resolved).1 none (overrides up.extra)).map
            fun b ↦ .ok ⟨b, .gemini, .convert .gemini,
              degradedHeader (ctx ++ imageCtx ++ (requestFromIr .gemini resolved).2)⟩, after) := by
  intro images
  have hsound : images.Sound (wanted entry body) := sound_afterTargets entry body stream targets
  refine ⟨hsound.once, ?_, fun ir ctx hread hne upstreamModel up ↦ ?_⟩
  · have hlength := (List.subperm_of_subset hsound.once hsound.within).length_le
    rw [List.length_map] at hlength
    exact hlength.trans (length_wanted_le entry body)
  · rw [wanted_eq hread stream upstreamModel] at hsound
    exact ⟨_, _, _, (resolveUrlImages_spec hsound).2,
      buildOutboundAny_gemini hread hne stream upstreamModel up rfl⟩

end Runs

end Downloads

end NextApi.Media
