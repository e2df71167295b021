import CloudMQ.MessageDecoder

/-!
Filtering by tag, on the broker and again on the client.

A subscription expression becomes a set of tags and the set of their hashes. The broker compares
the stored 32-bit code of a message, so it lets a message through whose hash collides; the client
then looks for the tag itself. Neither set tells an expression that names no tag from one that
takes every message: the broker looks at the expression, the client at the empty set.
-/

namespace CloudMQ.TagFilter

open CloudMQ.Utf8 CloudMQ.Strings CloudMQ.Message CloudMQ.MessageDecoder

structure SubscriptionData where
  subString : Text
  tagsSet : Finset Text := ∅
  codeSet : Finset Int32 := ∅
  classFilterMode : Bool := false

def SUB_ALL : Text := "*".toList

/-- A turn of the loop over the pieces of an expression. -/
def addTag (data : SubscriptionData) (tag : Text) : SubscriptionData :=
  if 0 < length tag then
    let trimString := trim tag
    if 0 < length trimString then
      { data with
        tagsSet := insert trimString data.tagsSet
        codeSet := insert (hashCode trimString) data.codeSet }
    else data
  else data

/-- `none` is an expression with no piece, which is refused. -/
def buildSubscriptionData : Option Text → Option SubscriptionData
  | none => some { subString := SUB_ALL }
  | some subString =>
    if subString = SUB_ALL ∨ length subString = 0 then some { subString := SUB_ALL }
    else
      let tags := splitDouble '|' subString
      if tags ≠ [] then some (tags.foldl addTag { subString := subString }) else none

/-- The broker's filter. -/
def isMessageMatched (subscriptionData : Option SubscriptionData) (tagsCode : Int64) : Bool :=
  match subscriptionData with
  | none => true
  | some data =>
    data.classFilterMode || data.subString == SUB_ALL || decide (tagsCode.toInt32 ∈ data.codeSet)

def getTags (msg : MessageExt) : Option Text := msg.getProperty PROPERTY_TAGS

/-- The client's filter, over the messages that it decodes from an answer. -/
def msgListFilterAgain (data : SubscriptionData) (msgList : List MessageExt) : List MessageExt :=
  if data.tagsSet ≠ ∅ ∧ !data.classFilterMode then
    msgList.filter fun msg =>
      match getTags msg with
      | some tags => decide (tags ∈ data.tagsSet)
      | none => false
  else msgList

/-! ### What an expression asks for -/

/-- An expression that takes every message. -/
def MeansAll (s : Option Text) : Prop := s = none ∨ s = some SUB_ALL ∨ s = some []

/-- The tags an expression names: its pieces, trimmed, where something is left of them. -/
def Asks (s : Option Text) (tag : Text) : Prop :=
  ∃ e, s = some e ∧ tag ≠ [] ∧ ∃ piece ∈ pieces '|' e, trim piece = tag

/-- What the two filters have to say about a message with these tags. The broker lets every
message through that the client keeps; a message it lets through has a tag that was asked for, or
one that collides with it. -/
structure FiltersAgree (s : Option Text) (data : SubscriptionData) (filterType : TopicFilterType)
    (msg : MessageExt) : Prop where
  kept : msg ∈ msgListFilterAgain data [msg] →
    isMessageMatched (some data) (tagsString2tagsCode filterType (getTags msg))
  asked : isMessageMatched (some data) (tagsString2tagsCode filterType (getTags msg)) →
    (∃ tags, getTags msg = some tags ∧ Asks s tags) ∨ MeansAll s ∨
      ∃ tag, Asks s tag ∧
        hashCode tag = (tagsString2tagsCode filterType (getTags msg)).toInt32

/-! ### The sets of an expression -/

lemma length_pos_iff {s : Text} : 0 < length s ↔ s ≠ [] := by
  rw [← not_iff_not, not_not, ← length_lt_one_iff]
  omega

lemma trim_nil : trim [] = [] := rfl

/-- A turn adds a tag and its hash, or nothing. -/
lemma addTag_cases (data : SubscriptionData) (tag : Text) :
    (trim tag = [] ∧ addTag data tag = data) ∨
      (trim tag ≠ [] ∧ addTag data tag = { data with
        tagsSet := insert (trim tag) data.tagsSet
        codeSet := insert (hashCode (trim tag)) data.codeSet }) := by
  by_cases htrim : trim tag = []
  · refine .inl ⟨htrim, ?_⟩
    have hlen : ¬0 < length (trim tag) := by
      rw [length_pos_iff, htrim]
      exact fun h => h rfl
    simp only [addTag, if_neg hlen, ite_self]
  · refine .inr ⟨htrim, ?_⟩
    have htag : tag ≠ [] := by
      rintro rfl
      exact htrim trim_nil
    simp only [addTag, if_pos (length_pos_iff.mpr htag), if_pos (length_pos_iff.mpr htrim)]

/-- The loop adds the trimmed pieces, where something is left of them. -/
lemma foldl_addTag (tags : List Text) (data : SubscriptionData) :
    (tags.foldl addTag data).subString = data.subString ∧
      (tags.foldl addTag data).classFilterMode = data.classFilterMode ∧
      (∀ t, t ∈ (tags.foldl addTag data).tagsSet ↔
        t ∈ data.tagsSet ∨ t ≠ [] ∧ ∃ tag ∈ tags, trim tag = t) ∧
      ∀ c, c ∈ (tags.foldl addTag data).codeSet ↔
        c ∈ data.codeSet ∨ ∃ tag ∈ tags, trim tag ≠ [] ∧ hashCode (trim tag) = c := by
  induction tags generalizing data with
  | nil => simp
  | cons tag tags ih =>
    obtain ⟨hsub, hmode, htags, hcodes⟩ := ih (addTag data tag)
    rw [List.foldl_cons]
    rcases addTag_cases data tag with ⟨htrim, hadd⟩ | ⟨htrim, hadd⟩
    · rw [hadd] at hsub hmode htags hcodes
      rw [hadd]
      refine ⟨hsub, hmode, fun t => ?_, fun c => ?_⟩
      · rw [htags t]
        refine or_congr_right (and_congr_right fun ht => ?_)
        rw [List.exists_mem_cons_iff, htrim]
        exact (or_iff_right (Ne.symm ht)).symm
      · rw [hcodes c, List.exists_mem_cons_iff]
        refine or_congr_right (or_iff_right ?_).symm
        exact fun h => h.1 htrim
    · rw [hadd] at hsub hmode htags hcodes
      rw [hadd]
      refine ⟨hsub, hmode, fun t => ?_, fun c => ?_⟩
      · rw [htags t, Finset.mem_insert, List.exists_mem_cons_iff]
        constructor
        · rintro ((rfl | hmem) | ⟨ht, htag⟩)
          · exact .inr ⟨htrim, .inl rfl⟩
          · exact .inl hmem
          · exact .inr ⟨ht, .inr htag⟩
        · rintro (hmem | ⟨ht, heq | htag⟩)
          · exact .inl (.inr hmem)
          · exact .inl (.inl heq.symm)
          · exact .inr ⟨ht, htag⟩
      · rw [hcodes c, Finset.mem_insert, List.exists_mem_cons_iff]
        constructor
        · rintro ((rfl | hmem) | htag)
          · exact .inr (.inl ⟨htrim, rfl⟩)
          · exact .inl hmem
          · exact .inr (.inr htag)
        · rintro (hmem | ⟨-, heq⟩ | htag)
          · exact .inl (.inr hmem)
          · exact .inl (.inl heq.symm)
          · exact .inr htag

/-- What an accepted expression becomes. -/
structure Built (s : Option Text) (data : SubscriptionData) : Prop where
  mode : data.classFilterMode = false
  all : data.subString = SUB_ALL ↔ MeansAll s
  tags : ∀ t, t ∈ data.tagsSet ↔ ¬MeansAll s ∧ Asks s t
  codes : ∀ c, c ∈ data.codeSet ↔ ¬MeansAll s ∧ ∃ t, Asks s t ∧ hashCode t = c

lemma built_all {s : Option Text} (h : MeansAll s) : Built s { subString := SUB_ALL } where
  mode := rfl
  all := iff_of_true rfl h
  tags := fun _ => iff_of_false (Finset.notMem_empty _) fun h' => h'.1 h
  codes := fun _ => iff_of_false (Finset.notMem_empty _) fun h' => h'.1 h

lemma buildSubscriptionData_built {s : Option Text} {data : SubscriptionData}
    (h : buildSubscriptionData s = some data) : Built s data := by
  cases s with
  | none =>
    obtain rfl := Option.some.inj h
    exact built_all (.inl rfl)
  | some e =>
    simp only [buildSubscriptionData] at h
    split at h
    · rename_i hall
      obtain rfl := Option.some.inj h
      refine built_all (.inr (hall.imp (congrArg some) fun hlen => ?_))
      exact congrArg some (length_lt_one_iff.mp (Nat.lt_one_iff.mpr hlen))
    · rename_i hall
      rw [not_or] at hall
      have hne : e ≠ [] := by
        rintro rfl
        exact hall.2 rfl
      have hnot : ¬MeansAll (some e) := by
        rintro (h | h | h)
        · exact Option.some_ne_none _ h
        · exact hall.1 (Option.some.inj h)
        · exact hne (Option.some.inj h)
      split at h
      · obtain rfl := Option.some.inj h
        obtain ⟨hsub, hmode, htags, hcodes⟩ :=
          foldl_addTag (splitDouble '|' e) { subString := e }
        -- A piece that is dropped is empty, and leaves nothing when it is trimmed.
        have hpieces : ∀ t, t ≠ [] → ((∃ tag ∈ splitDouble '|' e, trim tag = t) ↔
            ∃ piece ∈ pieces '|' e, trim piece = t) := by
          refine fun t ht => exists_congr fun piece => and_congr_left fun htrim => ?_
          refine mem_splitDouble ?_
          rintro rfl
          exact ht (htrim.symm.trans trim_nil)
        have hasks : ∀ t, Asks (some e) t ↔
            t ≠ [] ∧ ∃ tag ∈ splitDouble '|' e, trim tag = t := by
          intro t
          constructor
          · rintro ⟨e', he', ht, hpiece⟩
            obtain rfl := Option.some.inj he'
            exact ⟨ht, (hpieces t ht).mpr hpiece⟩
          · exact fun ⟨ht, htag⟩ => ⟨e, rfl, ht, (hpieces t ht).mp htag⟩
        exact {
          mode := hmode
          all := by
            rw [hsub]
            exact iff_of_false hall.1 hnot
          tags := by
            intro t
            rw [htags t, and_iff_right hnot, hasks t]
            exact or_iff_right (Finset.notMem_empty _)
          codes := by
            intro c
            rw [hcodes c, and_iff_right hnot, or_iff_right (Finset.notMem_empty _)]
            constructor
            · rintro ⟨tag, hmem, htrim, hhash⟩
              exact ⟨trim tag, (hasks _).mpr ⟨htrim, tag, hmem, rfl⟩, hhash⟩
            · rintro ⟨t, ht, hhash⟩
              obtain ⟨htrim, tag, hmem, rfl⟩ := (hasks t).mp ht
              exact ⟨tag, hmem, htrim, hhash⟩ }
      · exact absurd h (by simp)

/-! ### The two filters -/

section Filters

variable {s : Option Text} {data : SubscriptionData}

lemma Built.isMessageMatched_iff (hb : Built s data) (tagsCode : Int64) :
    isMessageMatched (some data) tagsCode ↔
      MeansAll s ∨ ∃ t, Asks s t ∧ hashCode t = tagsCode.toInt32 := by
  rw [isMessageMatched, hb.mode, Bool.false_or, Bool.or_eq_true, beq_iff_eq, decide_eq_true_iff,
    hb.all, hb.codes]
  constructor
  · exact fun h => h.imp_right And.right
  · intro h
    by_cases hall : MeansAll s
    · exact .inl hall
    · exact .inr ⟨hall, h.resolve_left hall⟩

/-- The client keeps everything once its set is empty. -/
lemma Built.mem_msgListFilterAgain (hb : Built s data) {msg : MessageExt}
    {msgList : List MessageExt} :
    msg ∈ msgListFilterAgain data msgList ↔
      msg ∈ msgList ∧
        (data.tagsSet = ∅ ∨ ∃ tags, getTags msg = some tags ∧ tags ∈ data.tagsSet) := by
  rw [msgListFilterAgain, hb.mode]
  by_cases hempty : data.tagsSet = ∅
  · rw [if_neg fun h => h.1 hempty]
    exact (and_iff_left (.inl hempty)).symm
  · rw [if_pos ⟨hempty, rfl⟩, List.mem_filter, or_iff_right hempty]
    refine and_congr_right fun _ => ?_
    cases getTags msg with
    | none => simp
    | some tags => simp

lemma toInt32_tagsString2tagsCode {filterType : TopicFilterType} {tags : Text} (h : tags ≠ []) :
    (tagsString2tagsCode filterType (some tags)).toInt32 = hashCode tags := by
  rw [tagsString2tagsCode, if_neg h]
  exact Int32.toInt32_toInt64 _

/-- A tag that was asked for has its hash among the codes. -/
lemma Built.isMessageMatched_of_asks (hb : Built s data) {filterType : TopicFilterType}
    {tags : Text} (h : Asks s tags) :
    isMessageMatched (some data) (tagsString2tagsCode filterType (some tags)) := by
  obtain ⟨-, -, hne, -⟩ := id h
  rw [hb.isMessageMatched_iff, toInt32_tagsString2tagsCode hne]
  exact .inr ⟨tags, h, rfl⟩

/-- The tags are none exactly when everything or nothing is asked for. -/
lemma Built.tagsSet_eq_empty (hb : Built s data) :
    data.tagsSet = ∅ ↔ MeansAll s ∨ ¬∃ t, Asks s t := by
  rw [Finset.eq_empty_iff_forall_notMem]
  constructor
  · intro h
    by_cases hall : MeansAll s
    · exact .inl hall
    · exact .inr fun ⟨t, ht⟩ => h t ((hb.tags t).mpr ⟨hall, ht⟩)
  · rintro (hall | hnone) t ht
    · exact ((hb.tags t).mp ht).1 hall
    · exact hnone ⟨t, ((hb.tags t).mp ht).2⟩

/-- **The filters agree** about a message exactly when the expression takes all messages or names
a tag. Of an accepted expression whose pieces are all blank the broker rejects what the client
would keep. -/
theorem filters_agree (haccepted : buildSubscriptionData s = some data)
    (filterType : TopicFilterType) (msg : MessageExt) :
    FiltersAgree s data filterType msg ↔ MeansAll s ∨ ∃ tag, Asks s tag := by
  have hb := buildSubscriptionData_built haccepted
  constructor
  · intro hagree
    by_contra hneither
    rw [not_or] at hneither
    have hkept := hagree.kept (hb.mem_msgListFilterAgain.mpr
      ⟨List.mem_singleton_self msg, .inl (hb.tagsSet_eq_empty.mpr (.inr hneither.2))⟩)
    rw [hb.isMessageMatched_iff] at hkept
    rcases hkept with hall | ⟨tag, htag, -⟩
    · exact hneither.1 hall
    · exact hneither.2 ⟨tag, htag⟩
  · intro hcond
    refine ⟨fun hkept => ?_, fun hmatched => ?_⟩
    · rcases (hb.mem_msgListFilterAgain.mp hkept).2 with hempty | ⟨tags, hget, hmem⟩
      · refine (hb.isMessageMatched_iff _).mpr (.inl ?_)
        rcases hb.tagsSet_eq_empty.mp hempty with hall | hnone
        · exact hall
        · exact hcond.resolve_right hnone
      · rw [hget]
        exact hb.isMessageMatched_of_asks ((hb.tags tags).mp hmem).2
    · exact .inr ((hb.isMessageMatched_iff _).mp hmatched)

def taggedMessage : MessageExt where
  topic := "t".toList
  flag := 0
  properties := Props.empty.put PROPERTY_TAGS ['a']
  body := none
  queueId := 0
  storeSize := 100
  queueOffset := 0
  sysFlag := 0
  bornTimestamp := 0
  bornHost := ⟨.inet4 127 0 0 1, 10911⟩
  storeTimestamp := 0
  storeHost := ⟨.inet4 127 0 0 1, 10911⟩
  commitLogOffset := 0
  bodyCRC := 0
  reconsumeTimes := 0
  preparedTransactionOffset := 0

def twoTags : SubscriptionData where
  subString := "a || b".toList
  tagsSet := {['b'], ['a']}
  codeSet := {98, 97}

theorem filters_agree_two_tags :
    buildSubscriptionData (some "a || b".toList) = some twoTags ∧
      (FiltersAgree (some "a || b".toList) twoTags .SINGLE_TAG taggedMessage ↔
        MeansAll (some "a || b".toList) ∨ ∃ tag, Asks (some "a || b".toList) tag) :=
  have hbuilt : buildSubscriptionData (some "a || b".toList) = some twoTags := by rfl
  ⟨hbuilt, filters_agree hbuilt .SINGLE_TAG taggedMessage⟩

/-- A blank expression is accepted, the client keeps its messages, and the broker sends none. -/
theorem blank_expression_disagrees : ¬∀ (s : Option Text) (data : SubscriptionData)
    (filterType : TopicFilterType) (msg : MessageExt),
    buildSubscriptionData s = some data → FiltersAgree s data filterType msg := by
  intro h
  have hkept := (h (some [' ']) { subString := [' '] } .SINGLE_TAG taggedMessage (by rfl)).kept
    (List.mem_singleton_self taggedMessage)
  exact absurd hkept (by decide)

/-- **Nothing is lost.** Where the filters agree, the client is left with the same messages as if
the broker had not filtered. -/
theorem msgListFilterAgain_filter (haccepted : buildSubscriptionData s = some data)
    (filterType : TopicFilterType) (hcond : MeansAll s ∨ ∃ tag, Asks s tag)
    (msgList : List MessageExt) :
    msgListFilterAgain data (msgList.filter fun msg =>
        isMessageMatched (some data) (tagsString2tagsCode filterType (getTags msg))) =
      msgListFilterAgain data msgList := by
  have hb := buildSubscriptionData_built haccepted
  have hkept : ∀ msg, msg ∈ msgListFilterAgain data [msg] →
      isMessageMatched (some data) (tagsString2tagsCode filterType (getTags msg)) := fun msg =>
    ((filters_agree haccepted filterType msg).mpr hcond).kept
  simp only [hb.mem_msgListFilterAgain, List.mem_singleton, true_and] at hkept
  rw [msgListFilterAgain, msgListFilterAgain, hb.mode]
  by_cases hempty : data.tagsSet = ∅
  · rw [if_neg fun h => h.1 hempty, if_neg fun h => h.1 hempty]
    exact List.filter_eq_self.mpr fun msg _ => hkept msg (.inl hempty)
  · rw [if_pos ⟨hempty, rfl⟩, if_pos ⟨hempty, rfl⟩, List.filter_filter]
    refine List.filter_congr fun msg _ => ?_
    cases hget : getTags msg with
    | none => rfl
    | some tags =>
      by_cases hmem : tags ∈ data.tagsSet
      · have := hkept msg (.inr ⟨tags, hget, hmem⟩)
        rw [hget] at this
        rw [this, Bool.and_true]
      · simp [hmem]

end Filters

end CloudMQ.TagFilter
