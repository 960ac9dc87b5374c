import Intake.Proofs.Pipeline.Provenance

/-! What the stages hand on. Whatever the stages do, each is given the results of those before it and
nothing else, and the chunks of the last one leave as they are but for four keys. Its indices and its
record may contradict each other: a position without an index goes by itself, and so does an index
without an entry on record. -/
namespace Intake.Pipeline

/- The index that a position goes by, and the list that is given out for it. -/
structure GoesBy (c : Compression) (position index : Nat) (list : List Nat) : Prop where
  placed : c.retained[position]? = some index ∨ c.retained.length ≤ position ∧ index = position
  listed : c.provenance.get? index = some list ∨ c.provenance.get? index = none ∧ list = [index]

/- An outcome with what was handed on: the text, the chunks that were cut, the compression. -/
structure Handed (s : Stages) (t : Text) (metadata : Option Metadata) (o : Outcome) (text : Text)
    (cut : List Chunk) (c : Compression) : Prop where
  stages : ∃ normalized detected selected segmented,
    s.normalize t metadata = (text, normalized) ∧
    s.detect text = (o.signature, detected) ∧
    s.select o.signature = (o.policy, selected) ∧
    s.segment text o.policy o.signature = (cut, segmented) ∧
    s.compress cut o.policy = c ∧
    o.auditTrail = [normalized, detected, selected, segmented, c.audit]
  count : o.chunks.length = c.chunks.length
  told : ∀ (position : Nat) (k d : Chunk), c.chunks[position]? = some k →
    o.chunks[position]? = some d →
    ∃ index list, GoesBy c position index list ∧ Told o.signature o.policy list k d
  heads : c.retained.length = c.chunks.length →
    (∀ index list, c.provenance.get? index = some list → list.head? = some index) →
    ∃ lists : List (List Nat), o.chunks.map (·.metadata.get? "compression_provenance") =
        lists.map (fun l => some (.ofNats l)) ∧
      lists.map List.head? = c.retained.map some

theorem answersGoBy (c : Compression) (position : Nat) :
    ∃ index, GoesBy c position index (answers c position) := by
  refine ⟨c.retained[position]?.getD position, ?_, ?_⟩
  · cases retained : c.retained[position]? with
    | some index => exact .inl rfl
    | none => exact .inr ⟨List.getElem?_eq_none_iff.1 retained, rfl⟩
  · rw [answers, Compression.answersFor]
    cases recorded : c.provenance.get? (c.retained[position]?.getD position) with
    | some list => exact .inl rfl
    | none => exact .inr ⟨rfl, rfl⟩

theorem goesByAnswers {c : Compression} {position index : Nat} {list : List Nat}
    (goes : GoesBy c position index list) : list = answers c position := by
  have here : c.retained[position]?.getD position = index := by
    rcases goes.placed with retained | ⟨beyond, rfl⟩
    · rw [retained, Option.getD_some]
    · rw [List.getElem?_eq_none beyond, Option.getD_none]
  rw [answers, here, Compression.answersFor]
  rcases goes.listed with recorded | ⟨absent, rfl⟩
  · rw [recorded, Option.getD_some]
  · rw [absent, Option.getD_none]

/- There is one chunk that another becomes when it is told so. -/
theorem toldDecorate {signature : Signature} {policy : Policy} {answersFor : List Nat} {c d : Chunk}
    (told : Told signature policy answersFor c d) : d = decorate signature policy answersFor c := by
  have decorated := decorateTold signature policy answersFor c
  have metadata : d.metadata = (decorate signature policy answersFor c).metadata := by
    refine Metadata.sameTable (Table.sameLookups fun key => ?_)
    show d.metadata.get? key = (decorate signature policy answersFor c).metadata.get? key
    -- A key is one of the four, with one value, or was left as it was.
    by_cases added : key ∈ addedKeys
    · simp only [addedKeys, List.mem_cons, List.not_mem_nil, or_false] at added
      rcases added with rfl | rfl | rfl | rfl
      · rw [told.signature, decorated.signature]
      · rw [told.policy, decorated.policy]
      · rw [told.version, decorated.version]
      · rw [told.provenance, decorated.provenance]
    · rw [told.others key added, decorated.others key added]
  obtain ⟨content, entries, offset, length⟩ := d
  cases told.content
  cases told.offset
  cases told.length
  cases metadata
  rfl

/- The list for an index begins with it, on record or not. -/
theorem headsRetained {c : Compression}
    (rooted : ∀ index list, c.provenance.get? index = some list → list.head? = some index) :
    (listsOf c).map List.head? = c.retained.map some := by
  rw [listsOf, List.map_map]
  refine List.map_congr_left fun index _ => ?_
  rw [Function.comp_apply, Compression.answersFor]
  cases recorded : c.provenance.get? index with
  | some list => exact rooted index list recorded
  | none => rfl

theorem ingestHanded (s : Stages) (t : Text) (metadata : Option Metadata) :
    ∃ text cut c, Handed s t metadata (ingest s t metadata) text cut c := by
  refine ⟨_, _, keptOf s t metadata, ⟨_, _, _, _, rfl, rfl, rfl, rfl, rfl, rfl⟩, ?count, ?told,
    fun counted rooted => ⟨_, listsTold counted, headsRetained rooted⟩⟩
  case count => rw [ingestChunks, List.length_mapIdx]
  case told =>
    intro position k d before behind
    rw [ingestChunks, List.getElem?_mapIdx, before, Option.map_some] at behind
    cases behind
    obtain ⟨index, goes⟩ := answersGoBy (keptOf s t metadata) position
    exact ⟨index, _, goes, decorateTold _ _ _ k⟩

/- What was handed on leaves no choice. -/
theorem handedIngest {s : Stages} {t : Text} {metadata : Option Metadata} {o : Outcome}
    {text : Text} {cut : List Chunk} {c : Compression}
    (handed : Handed s t metadata o text cut c) : o = ingest s t metadata := by
  obtain ⟨normalized, detected, selected, segmented, normal, detect, select, segment, compress, trail⟩ :=
    handed.stages
  have chunks : o.chunks =
      c.chunks.mapIdx (fun i k => decorate o.signature o.policy (answers c i) k) := by
    refine List.ext_getElem (by rw [handed.count, List.length_mapIdx]) fun position inside _ => ?_
    have bound : position < c.chunks.length := handed.count ▸ inside
    obtain ⟨index, list, goes, told⟩ := handed.told position _ _ (List.getElem?_eq_getElem bound)
      (List.getElem?_eq_getElem inside)
    rw [List.getElem_mapIdx, ← goesByAnswers goes]
    exact toldDecorate told
  obtain ⟨chunksOf, signature, policy, auditTrail⟩ := o
  simp only at detect select segment compress trail chunks
  simp only [ingest, normal, detect, select, segment, compress, trail, chunks]

theorem stagesHandOn (s : Stages) (t : Text) (metadata : Option Metadata) (o : Outcome) :
    (∃ text cut c, Handed s t metadata o text cut c) ↔ o = ingest s t metadata := by
  constructor
  · rintro ⟨text, cut, c, handed⟩
    exact handedIngest handed
  · rintro rfl
    exact ingestHanded s t metadata

def unnamed : Audit := ⟨"", "", .empty⟩

/- Stages that cut a text twice and give the indices back in reverse, one of them for two. -/
def reversing : Stages where
  normalize t _ := (t, unnamed)
  detect _ := (.empty, unnamed)
  select _ := (.mixedSafe, unnamed)
  segment t _ _ := ([Chunk.of t 0, Chunk.of t 0], unnamed)
  compress cs _ := ⟨cs, Table.empty.set 1 [1, 2], [1, 0], unnamed⟩

theorem reversedHeads : ∃ lists : List (List Nat),
    (ingest reversing "ab".toList none).chunks.map (·.metadata.get? "compression_provenance") =
        lists.map (fun l => some (.ofNats l)) ∧
      lists.map List.head? = [some 1, some 0] := by
  obtain ⟨text, cut, c, handed⟩ := (stagesHandOn reversing "ab".toList none _).2 rfl
  obtain ⟨_, _, _, _, normal, detect, select, segment, compressed, -⟩ := handed.stages
  cases normal
  cases detect
  cases select
  cases segment
  cases compressed
  refine handed.heads rfl fun index list recorded => ?_
  rw [show (reversing.compress _ _).provenance = Table.empty.set 1 [1, 2] from rfl, Table.getSet,
    Table.getEmpty] at recorded
  split at recorded
  · rename_i same
    cases Std.LawfulEqOrd.eq_of_compare same
    cases recorded
    rfl
  · cases recorded

end Intake.Pipeline
