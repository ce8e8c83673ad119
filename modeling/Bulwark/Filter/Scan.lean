import Bulwark.Filter.Lookup

/-!
# What a scan reports

For entries whose ids name wildcard or regex records, building a scan group
succeeds and `scan_group` returns ids of matching entries only; it returns all
of them once the tokens passed in cover each entry's own tokens.
-/

namespace Bulwark.Filter

open Bulwark.Foundation

/-! ## Sources of scan rules -/

/-- The regex source of record `id`, when it is a wildcard or regex record. -/
def sourceOf (records : List RuleRecord) (regexes : List Text) (id : Nat) :
    Option Text := do
  let r ← records[id]?
  if r.kind.isScan then regexes[r.domOrRe]? else none

/-- `source` gives the regexes of all these ids. -/
def Sources (records : List RuleRecord) (regexes : List Text)
    (source : Nat → Text) (ids : List Nat) : Prop :=
  ∀ id ∈ ids, sourceOf records regexes id = some (source id)

section

variable {records : List RuleRecord} {regexes : List Text} {source : Nat → Text}

theorem sourceOf_eq_some {id : Nat} {s : Text}
    (h : sourceOf records regexes id = some s) :
    ∃ r, records[id]? = some r ∧ r.kind.isScan = true ∧
      regexes[r.domOrRe]? = some s := by
  simp only [sourceOf, Option.bind_eq_bind, Option.bind_eq_some_iff] at h
  obtain ⟨r, hr, hs⟩ := h
  split at hs
  · rename_i hk
    exact ⟨r, hr, hk, hs⟩
  · simp at hs

/-! ## Chunks -/

theorem flatten_chunksFrom {α : Type} (size : Nat) (chunk l : List α) :
    (chunksFrom size chunk l).flatten = chunk ++ l := by
  induction l generalizing chunk with
  | nil => cases chunk <;> simp [chunksFrom]
  | cons x l ih =>
      rw [chunksFrom]
      split <;> simp [ih]

theorem map_chunksFrom {α β : Type} (f : α → β) (size : Nat) (chunk l : List α) :
    chunksFrom size (chunk.map f) (l.map f) =
      (chunksFrom size chunk l).map (List.map f) := by
  induction l generalizing chunk with
  | nil => cases chunk <;> simp [chunksFrom]
  | cons x l ih =>
      rw [List.map_cons, chunksFrom, chunksFrom, List.length_map]
      split
      · have := ih []
        simp_all
      · have := ih (chunk ++ [x])
        simp_all

theorem chunkMembers_eq {ids : List Nat} (h : Sources records regexes source ids) :
    chunkMembers records regexes ids = some ⟨ids.map source, ids⟩ := by
  induction ids with
  | nil => rfl
  | cons id ids ih =>
      obtain ⟨r, hr, hk, hs⟩ := sourceOf_eq_some (h id List.mem_cons_self)
      rw [chunkMembers, ih fun i hi => h i (List.mem_cons_of_mem _ hi)]
      simp [hr, hk, hs]

/-- The chunks whose set could be built, and the members of the others. -/
def setsOf (rx : RegexEngine) (source : Nat → Text) (chunks : List (List Nat)) :
    List FallbackSet :=
  ((chunks.filter (· ≠ [])).filter fun ids =>
    rx.setBuild (ids.map source) fallbackRegexSetSizeLimit).map fun ids =>
      ⟨ids.map source, ids⟩

def individualOf (rx : RegexEngine) (source : Nat → Text)
    (chunks : List (List Nat)) : List Nat :=
  (chunks.filter fun ids =>
    !rx.setBuild (ids.map source) fallbackRegexSetSizeLimit).flatten

theorem addChunks_eq (rx : RegexEngine) {chunks : List (List Nat)}
    (h : Sources records regexes source chunks.flatten) (g : ScanGroup) :
    addChunks rx records regexes chunks g =
      some { g with
        fallbackSets := g.fallbackSets ++ setsOf rx source chunks
        fallbackIndividual := g.fallbackIndividual ++
          individualOf rx source chunks } := by
  induction chunks generalizing g with
  | nil => simp [addChunks, setsOf, individualOf]
  | cons ids chunks ih =>
      have hids : Sources records regexes source ids := fun i hi =>
        h i (List.mem_flatten.mpr ⟨ids, List.mem_cons_self, hi⟩)
      have hrest : Sources records regexes source chunks.flatten := fun i hi =>
        h i (List.mem_append_right ids hi)
      rw [addChunks, chunkMembers_eq hids]
      simp only [Option.bind_eq_bind, Option.bind_some, List.isEmpty_map]
      rw [ih hrest]
      by_cases hnil : ids = []
      · subst hnil
        by_cases hset : rx.setBuild [] fallbackRegexSetSizeLimit <;>
          simp [setsOf, individualOf, hset]
      · by_cases hset : rx.setBuild (ids.map source) fallbackRegexSetSizeLimit
        · simp [setsOf, individualOf, hnil, hset]
        · simp [setsOf, individualOf, hnil, hset]

/-! ## Filing by token -/

theorem minByKey_mem {α : Type} {key : α → Nat} {l : List α} {x : α}
    (h : minByKey key l = some x) : x ∈ l := by
  cases l with
  | nil => simp [minByKey] at h
  | cons y l =>
      have hfold : ∀ (l : List α) (b : α),
          l.foldl (fun best y => if key y < key best then y else best) b ∈ b :: l := by
        intro l
        induction l with
        | nil => simp
        | cons z l ih =>
            intro b
            rw [List.foldl_cons]
            rcases List.mem_cons.mp (ih (if key z < key b then z else b)) with h | h
            · rw [h]
              split <;> simp
            · exact List.mem_cons_of_mem _ (List.mem_cons_of_mem _ h)
      rw [minByKey, Option.some.injEq] at h
      rw [← h]
      exact hfold l y

theorem minByKey_eq_none_iff {α : Type} {key : α → Nat} {l : List α} :
    minByKey key l = none ↔ l = [] := by
  cases l <;> simp [minByKey]

def filedUnder (freq : UInt32 → Nat) (entries : ScanMeta) (tok : UInt32) : List Nat :=
  (entries.filter fun e => minByKey freq e.2 = some tok).map Prod.fst

def unfiled (entries : ScanMeta) : List Nat :=
  (entries.filter fun e => e.2 = []).map Prod.fst

theorem fileByToken_spec (freq : UInt32 → Nat) (entries : ScanMeta)
    (index : AList (fun _ : UInt32 => List Nat)) (fallback : List Nat) :
    (fileByToken freq entries (index, fallback)).2 = fallback ++ unfiled entries ∧
      ∀ tok, ((fileByToken freq entries (index, fallback)).1.lookup tok).getD [] =
        (index.lookup tok).getD [] ++ filedUnder freq entries tok := by
  induction entries generalizing index fallback with
  | nil => simp [fileByToken, unfiled, filedUnder]
  | cons e entries ih =>
      obtain ⟨id, toks⟩ := e
      rw [fileByToken]
      cases hmin : minByKey freq toks with
      | none =>
          obtain ⟨hfb, hlookup⟩ := ih index (fallback ++ [id])
          refine ⟨?_, ?_⟩
          · rw [hfb]
            simp [unfiled, minByKey_eq_none_iff.mp hmin]
          · intro tok
            rw [hlookup]
            simp [filedUnder, hmin]
      | some tok₀ =>
          have hne : toks ≠ [] := by
            rintro rfl
            simp [minByKey] at hmin
          obtain ⟨hfb, hlookup⟩ :=
            ih (index.insert tok₀ ((index.lookup tok₀).getD [] ++ [id])) fallback
          refine ⟨?_, ?_⟩
          · rw [hfb]
            simp [unfiled, hne]
          · intro tok
            rw [hlookup]
            by_cases htok : tok = tok₀
            · subst htok
              simp [filedUnder, hmin]
            · rw [AList.lookup_insert_ne htok]
              have hne' : ¬ tok₀ = tok := fun h => htok h.symm
              simp [filedUnder, hmin, hne']

/-! ## Built groups -/

def fallbackOf (tokenIndex : Bool) (entries : ScanMeta) : List Nat :=
  if tokenIndex then unfiled entries else entries.map Prod.fst

def filedOf (tokenIndex : Bool) (entries : ScanMeta) (tok : UInt32) : List Nat :=
  if tokenIndex then filedUnder (tokenFreq entries) entries tok else []

/-- The group built from `entries`, in closed form. -/
structure GroupHolds (rx : RegexEngine) (source : Nat → Text) (tokenIndex : Bool)
    (entries : ScanMeta) (g : ScanGroup) : Prop where
  sets : g.fallbackSets = setsOf rx source
    (chunksFrom fallbackChunk [] (fallbackOf tokenIndex entries))
  individual : g.fallbackIndividual = individualOf rx source
    (chunksFrom fallbackChunk [] (fallbackOf tokenIndex entries))
  index : ∀ tok, (g.scanIndex.lookup tok).getD [] = filedOf tokenIndex entries tok

theorem fallbackOf_subset {tokenIndex : Bool} {entries : ScanMeta} {id : Nat}
    (h : id ∈ fallbackOf tokenIndex entries) : id ∈ entries.map Prod.fst := by
  rw [fallbackOf] at h
  split at h
  · obtain ⟨e, he, rfl⟩ := List.mem_map.mp h
    exact List.mem_map_of_mem (List.mem_filter.mp he).1
  · exact h

theorem filedOf_subset {tokenIndex : Bool} {entries : ScanMeta} {id : Nat}
    {tok : UInt32} (h : id ∈ filedOf tokenIndex entries tok) :
    id ∈ entries.map Prod.fst := by
  rw [filedOf] at h
  split at h
  · obtain ⟨e, he, rfl⟩ := List.mem_map.mp h
    exact List.mem_map_of_mem (List.mem_filter.mp he).1
  · simp at h

theorem buildScanGroup_holds (rx : RegexEngine) {entries : ScanMeta}
    (h : Sources records regexes source (entries.map Prod.fst)) (tokenIndex : Bool) :
    ∃ g, buildScanGroup rx entries records regexes tokenIndex = some g ∧
      GroupHolds rx source tokenIndex entries g := by
  have hchunks : Sources records regexes source
      (chunksFrom fallbackChunk [] (fallbackOf tokenIndex entries)).flatten := by
    intro id hid
    rw [flatten_chunksFrom, List.nil_append] at hid
    exact h id (fallbackOf_subset hid)
  cases tokenIndex with
  | false =>
      refine ⟨_, addChunks_eq rx hchunks _, ?_⟩
      constructor <;> simp [filedOf]
  | true =>
      obtain ⟨hfb, hlookup⟩ := fileByToken_spec (tokenFreq entries) entries ∅ []
      rw [List.nil_append] at hfb
      rw [buildScanGroup, if_pos rfl]
      simp only
      rw [hfb]
      refine ⟨_, addChunks_eq rx hchunks _, ?_⟩
      constructor
      · simp
      · simp
      · intro tok
        simpa [filedOf] using hlookup tok

end

/-! ## Scanning -/

/-- The ids a scan returns, given the regex of each. -/
def scanHits (rx : RegexEngine) (source : Nat → Text) (tokenIndex : Bool)
    (entries : ScanMeta) (domain : Text) (tokens : List UInt32) : List Nat :=
  let chunks := chunksFrom fallbackChunk [] (fallbackOf tokenIndex entries)
  (setsOf rx source chunks).flatMap (fun set =>
      (rx.setMatches set.patterns domain).filterMap (set.ids[·]?)) ++
    (individualOf rx source chunks).filter (fun i => rx.isMatch (source i) domain) ++
    tokens.flatMap fun tok =>
      (filedOf tokenIndex entries tok).filter fun i => rx.isMatch (source i) domain

namespace FilterEngine

variable {e : FilterEngine} {rx : RegexEngine} {source : Nat → Text} {domain : Text}

theorem setHits_eq {ids idxs : List Nat} (h : ∀ i ∈ idxs, i < ids.length) :
    setHits ids idxs = some (idxs.filterMap (ids[·]?)) := by
  induction idxs with
  | nil => rfl
  | cons i idxs ih =>
      have hi := h i List.mem_cons_self
      rw [setHits, ih fun j hj => h j (List.mem_cons_of_mem _ hj)]
      simp [hi]

theorem scanSets_eq {sets : List FallbackSet}
    (h : ∀ set ∈ sets, set.patterns.length = set.ids.length) :
    scanSets rx domain sets =
      some (sets.flatMap fun set =>
        (rx.setMatches set.patterns domain).filterMap (set.ids[·]?)) := by
  induction sets with
  | nil => rfl
  | cons set sets ih =>
      have hbound : ∀ i ∈ rx.setMatches set.patterns domain, i < set.ids.length := by
        intro i hi
        obtain ⟨p, hp, -⟩ := (rx.mem_setMatches _ _ _).mp hi
        rw [← h set List.mem_cons_self]
        exact (List.getElem?_eq_some_iff.mp hp).1
      rw [scanSets, setHits_eq hbound, ih fun s hs => h s (List.mem_cons_of_mem _ hs)]
      simp

theorem scanIds_eq {ids : List Nat} (h : Sources e.rules e.regexes source ids) :
    e.scanIds rx domain ids = some (ids.filter fun i => rx.isMatch (source i) domain) := by
  induction ids with
  | nil => rfl
  | cons id ids ih =>
      obtain ⟨r, hr, hk, hs⟩ := sourceOf_eq_some (h id List.mem_cons_self)
      rw [scanIds, ih fun i hi => h i (List.mem_cons_of_mem _ hi)]
      by_cases hm : rx.isMatch (source id) domain <;> simp [hr, hk, hs, hm]

theorem scanTokens_eq {g : ScanGroup} {tokens : List UInt32}
    (h : ∀ tok, Sources e.rules e.regexes source ((g.scanIndex.lookup tok).getD [])) :
    e.scanTokens rx g domain tokens =
      some (tokens.flatMap fun tok =>
        ((g.scanIndex.lookup tok).getD []).filter fun i => rx.isMatch (source i) domain) := by
  induction tokens with
  | nil => rfl
  | cons tok tokens ih =>
      rw [scanTokens, scanIds_eq (h tok), ih]
      simp

private theorem mem_individualOf {chunks : List (List Nat)} {id : Nat}
    (h : id ∈ individualOf rx source chunks) : id ∈ chunks.flatten := by
  obtain ⟨ids, hids, hid⟩ := List.mem_flatten.mp h
  exact List.mem_flatten.mpr ⟨ids, (List.mem_filter.mp hids).1, hid⟩

theorem scanGroup_eq {tokenIndex : Bool} {entries : ScanMeta} {g : ScanGroup}
    (hg : GroupHolds rx source tokenIndex entries g)
    (h : Sources e.rules e.regexes source (entries.map Prod.fst))
    (tokens : List UInt32) :
    e.scanGroup rx g domain tokens =
      some (scanHits rx source tokenIndex entries domain tokens) := by
  have hsets : ∀ set ∈ g.fallbackSets, set.patterns.length = set.ids.length := by
    intro set hset
    rw [hg.sets, setsOf] at hset
    obtain ⟨ids, -, rfl⟩ := List.mem_map.mp hset
    simp
  have hind : Sources e.rules e.regexes source g.fallbackIndividual := by
    intro id hid
    rw [hg.individual] at hid
    have hmem := mem_individualOf hid
    rw [flatten_chunksFrom, List.nil_append] at hmem
    exact h id (fallbackOf_subset hmem)
  have hfiled : ∀ tok,
      Sources e.rules e.regexes source ((g.scanIndex.lookup tok).getD []) := by
    intro tok id hid
    rw [hg.index] at hid
    exact h id (filedOf_subset hid)
  have hindexed : (if g.scanIndex.entries.isEmpty then some []
      else e.scanTokens rx g domain tokens) =
      some (tokens.flatMap fun tok =>
        (filedOf tokenIndex entries tok).filter fun i => rx.isMatch (source i) domain) := by
    simp only [← hg.index]
    split
    · rename_i hempty
      have hnil : ∀ tok, g.scanIndex.lookup tok = none := by
        intro tok
        rw [AList.lookup_eq_none, AList.mem_keys, AList.keys,
          List.isEmpty_iff.mp hempty]
        simp
      simp [hnil]
    · exact scanTokens_eq hfiled
  rw [scanGroup, scanSets_eq hsets, scanIds_eq hind, scanHits, ← hg.sets,
    ← hg.individual]
  simp only [Option.bind_eq_bind, Option.bind_some]
  split at hindexed
  · rename_i hempty
    rw [if_pos hempty, ← Option.some.inj hindexed]
  · rename_i hfull
    rw [if_neg hfull, hindexed, Option.bind_some]

end FilterEngine

/-! ## Soundness and completeness of the hits -/

section

variable {rx : RegexEngine} {source : Nat → Text} {tokenIndex : Bool}
  {entries : ScanMeta} {domain : Text} {tokens : List UInt32} {id : Nat}

private theorem mem_setsHits {chunks : List (List Nat)} :
    id ∈ (setsOf rx source chunks).flatMap (fun set =>
        (rx.setMatches set.patterns domain).filterMap (set.ids[·]?)) ↔
      ∃ ids ∈ chunks, id ∈ ids ∧
        rx.setBuild (ids.map source) fallbackRegexSetSizeLimit = true ∧
        rx.isMatch (source id) domain = true := by
  simp only [setsOf, List.mem_flatMap, List.mem_map, List.mem_filter,
    List.mem_filterMap, rx.mem_setMatches]
  constructor
  · rintro ⟨set, ⟨ids, ⟨⟨hids, -⟩, hset⟩, rfl⟩, i, ⟨p, hp, hm⟩, hid⟩
    simp only [List.getElem?_map, Option.map_eq_some_iff] at hp
    obtain ⟨id', hid', rfl⟩ := hp
    obtain rfl : id' = id := by
      simpa [hid'] using hid
    exact ⟨ids, hids, List.mem_of_getElem? hid', hset, hm⟩
  · rintro ⟨ids, hids, hid, hset, hm⟩
    obtain ⟨i, hi⟩ := List.mem_iff_getElem?.mp hid
    refine ⟨_, ⟨ids, ⟨⟨hids, ?_⟩, hset⟩, rfl⟩, i, ⟨source id, ?_, hm⟩, hi⟩
    · simpa using List.ne_nil_of_mem hid
    · simp [hi]

private theorem mem_individualHits {chunks : List (List Nat)} :
    id ∈ (individualOf rx source chunks).filter (fun i => rx.isMatch (source i) domain) ↔
      ∃ ids ∈ chunks, id ∈ ids ∧
        rx.setBuild (ids.map source) fallbackRegexSetSizeLimit = false ∧
        rx.isMatch (source id) domain = true := by
  simp only [individualOf, List.mem_filter, List.mem_flatten, Bool.not_eq_true']
  constructor
  · rintro ⟨⟨ids, ⟨hids, hset⟩, hid⟩, hm⟩
    exact ⟨ids, hids, hid, hset, hm⟩
  · rintro ⟨ids, hids, hid, hset, hm⟩
    exact ⟨⟨ids, ⟨hids, hset⟩, hid⟩, hm⟩

/-- A hit is a matching entry: left to the fallback, or filed under a token seen. -/
theorem mem_scanHits :
    id ∈ scanHits rx source tokenIndex entries domain tokens ↔
      (id ∈ fallbackOf tokenIndex entries ∨
        ∃ tok ∈ tokens, id ∈ filedOf tokenIndex entries tok) ∧
      rx.isMatch (source id) domain = true := by
  have hchunk : (∃ ids ∈ chunksFrom fallbackChunk [] (fallbackOf tokenIndex entries),
      id ∈ ids) ↔ id ∈ fallbackOf tokenIndex entries := by
    rw [← List.mem_flatten, flatten_chunksFrom, List.nil_append]
  rw [scanHits, List.mem_append, List.mem_append, mem_setsHits, mem_individualHits,
    ← hchunk]
  simp only [List.mem_flatMap, List.mem_filter]
  constructor
  · rintro ((⟨ids, hids, hid, -, hm⟩ | ⟨ids, hids, hid, -, hm⟩) | ⟨tok, htok, hid, hm⟩)
    · exact ⟨.inl ⟨ids, hids, hid⟩, hm⟩
    · exact ⟨.inl ⟨ids, hids, hid⟩, hm⟩
    · exact ⟨.inr ⟨tok, htok, hid⟩, hm⟩
  · rintro ⟨⟨ids, hids, hid⟩ | ⟨tok, htok, hid⟩, hm⟩
    · cases hset : rx.setBuild (ids.map source) fallbackRegexSetSizeLimit with
      | true => exact .inl (.inl ⟨ids, hids, hid, hset, hm⟩)
      | false => exact .inl (.inr ⟨ids, hids, hid, hset, hm⟩)
    · exact .inr ⟨tok, htok, hid, hm⟩

theorem mem_entries_of_scanHits
    (h : id ∈ scanHits rx source tokenIndex entries domain tokens) :
    id ∈ entries.map Prod.fst ∧ rx.isMatch (source id) domain = true := by
  obtain ⟨hmem, hm⟩ := mem_scanHits.mp h
  refine ⟨?_, hm⟩
  rcases hmem with hfb | ⟨tok, -, hfiled⟩
  · exact fallbackOf_subset hfb
  · exact filedOf_subset hfiled

theorem scanHits_complete {toks : List UInt32} (hentry : (id, toks) ∈ entries)
    (hm : rx.isMatch (source id) domain = true)
    (hcover : tokenIndex = true → ∀ tok ∈ toks, tok ∈ tokens) :
    id ∈ scanHits rx source tokenIndex entries domain tokens := by
  rw [mem_scanHits]
  refine ⟨?_, hm⟩
  cases tokenIndex with
  | false => exact .inl (List.mem_map.mpr ⟨_, hentry, rfl⟩)
  | true =>
      cases hmin : minByKey (tokenFreq entries) toks with
      | none =>
          refine .inl (List.mem_map.mpr ⟨_, List.mem_filter.mpr ⟨hentry, ?_⟩, rfl⟩)
          simpa using minByKey_eq_none_iff.mp hmin
      | some tok =>
          refine .inr ⟨tok, hcover rfl tok (minByKey_mem hmin), ?_⟩
          refine List.mem_map.mpr ⟨_, List.mem_filter.mpr ⟨hentry, ?_⟩, rfl⟩
          simpa using hmin

/-! ## Renumbering -/

def renumber (f : Nat → Nat) (entries : ScanMeta) : ScanMeta :=
  entries.map fun e => (f e.1, e.2)

private theorem tokenFreq_map (f : Nat → Nat) (entries : ScanMeta) :
    tokenFreq (renumber f entries) = tokenFreq entries := by
  funext tok
  simp [tokenFreq, renumber, List.flatMap_map]

private theorem fallbackOf_map (f : Nat → Nat) (tokenIndex : Bool) (entries : ScanMeta) :
    fallbackOf tokenIndex (renumber f entries) =
      (fallbackOf tokenIndex entries).map f := by
  cases tokenIndex <;>
    simp [fallbackOf, unfiled, renumber, List.filter_map, Function.comp_def]

private theorem filedOf_map (f : Nat → Nat) (tokenIndex : Bool) (entries : ScanMeta)
    (tok : UInt32) :
    filedOf tokenIndex (renumber f entries) tok =
      (filedOf tokenIndex entries tok).map f := by
  rw [filedOf, filedOf, tokenFreq_map]
  cases tokenIndex <;>
    simp [filedUnder, renumber, List.filter_map, Function.comp_def]

private theorem setsOf_map {source' : Nat → Text} (f : Nat → Nat)
    {chunks : List (List Nat)}
    (h : ∀ i ∈ chunks.flatten, source' (f i) = source i) :
    setsOf rx source' (chunks.map (List.map f)) =
      (setsOf rx source chunks).map fun set => ⟨set.patterns, set.ids.map f⟩ := by
  induction chunks with
  | nil => rfl
  | cons ids chunks ih =>
      have hids : (ids.map f).map source' = ids.map source := by
        rw [List.map_map]
        exact List.map_congr_left fun i hi => h i (List.mem_append_left _ hi)
      have hrest := ih fun i hi => h i (List.mem_append_right ids hi)
      simp only [setsOf, List.map_cons, List.filter_cons] at hrest ⊢
      by_cases hnil : ids = []
      · simpa [hnil] using hrest
      · by_cases hset : rx.setBuild (ids.map source) fallbackRegexSetSizeLimit
        · simp only [ne_eq, List.map_eq_nil_iff, hnil, not_false_eq_true,
            decide_true, if_true, List.filter_cons, hids, hset, List.map_cons, hrest]
        · simp only [ne_eq, List.map_eq_nil_iff, hnil, not_false_eq_true,
            decide_true, if_true, List.filter_cons, hids, hset]
          exact hrest

private theorem individualOf_map {source' : Nat → Text} (f : Nat → Nat)
    {chunks : List (List Nat)}
    (h : ∀ i ∈ chunks.flatten, source' (f i) = source i) :
    individualOf rx source' (chunks.map (List.map f)) =
      (individualOf rx source chunks).map f := by
  induction chunks with
  | nil => rfl
  | cons ids chunks ih =>
      have hids : (ids.map f).map source' = ids.map source := by
        rw [List.map_map]
        exact List.map_congr_left fun i hi => h i (List.mem_append_left _ hi)
      have hrest := ih fun i hi => h i (List.mem_append_right ids hi)
      simp only [individualOf, List.map_cons, List.filter_cons, hids] at hrest ⊢
      split <;> simp [hrest]

theorem scanHits_map {source' : Nat → Text} (f : Nat → Nat)
    (hsource : ∀ i ∈ entries.map Prod.fst, source' (f i) = source i) :
    scanHits rx source' tokenIndex (renumber f entries) domain tokens =
      (scanHits rx source tokenIndex entries domain tokens).map f := by
  have hfilter : ∀ ids : List Nat, (∀ i ∈ ids, i ∈ entries.map Prod.fst) →
      (ids.map f).filter (fun i => rx.isMatch (source' i) domain) =
        (ids.filter fun i => rx.isMatch (source i) domain).map f := by
    intro ids hids
    rw [List.filter_map]
    congr 1
    apply List.filter_congr
    intro i hi
    simp [hsource i (hids i hi)]
  have hchunks : ∀ i ∈ (chunksFrom fallbackChunk []
      (fallbackOf tokenIndex entries)).flatten, i ∈ entries.map Prod.fst := by
    intro i hi
    rw [flatten_chunksFrom, List.nil_append] at hi
    exact fallbackOf_subset hi
  have hmap : chunksFrom fallbackChunk [] ((fallbackOf tokenIndex entries).map f) =
      (chunksFrom fallbackChunk [] (fallbackOf tokenIndex entries)).map (List.map f) :=
    map_chunksFrom f fallbackChunk [] _
  simp only [scanHits, fallbackOf_map, filedOf_map, hmap, List.map_append,
    setsOf_map f fun i hi => hsource i (hchunks i hi),
    individualOf_map f fun i hi => hsource i (hchunks i hi)]
  congr 1
  · congr 1
    · simp only [List.flatMap_map, List.map_flatMap, List.getElem?_map,
        List.map_filterMap]
    · apply hfilter
      intro i hi
      exact hchunks i (FilterEngine.mem_individualOf hi)
  · rw [List.map_flatMap]
    congr 1
    funext tok
    exact hfilter _ fun i hi => filedOf_subset hi

end

end Bulwark.Filter
