import Mathlib.Data.Finset.Card
import Mathlib.Data.Finset.Image
import Credis.CommandCore

/-! Channels. The two maps of the pub/sub manager are the two sides of one relation,
who listens to what, and a message goes to the listeners of its channel. -/

namespace Credis

open ByteString

variable {subscribers : AList fun _ : Bytes => List Fd} {fd : Fd} {channel : Bytes}
  {audience : Audience}

inductive Subscription
  | subscribe (fd : Fd) (channel : Bytes)
  | unsubscribe (fd : Fd) (channel : Bytes)
  | unsubscribeAll (fd : Fd)

abbrev Audience := Finset (Fd × Bytes)

namespace Audience

def change (audience : Audience) : Subscription → Audience
  | .subscribe fd channel => insert (fd, channel) audience
  | .unsubscribe fd channel => audience.erase (fd, channel)
  | .unsubscribeAll fd => audience.filter fun pair => pair.1 ≠ fd

def channels (audience : Audience) (fd : Fd) : Finset Bytes :=
  (audience.filter fun pair => pair.1 = fd).image Prod.snd

def listeners (audience : Audience) (channel : Bytes) : Finset Fd :=
  (audience.filter fun pair => pair.2 = channel).image Prod.fst

@[simp]
theorem mem_channels : channel ∈ audience.channels fd ↔ (fd, channel) ∈ audience := by
  simp [channels]

@[simp]
theorem mem_listeners : fd ∈ audience.listeners channel ↔ (fd, channel) ∈ audience := by
  simp [listeners]

end Audience

namespace PubSubManager

variable {manager : PubSubManager} {audience : Audience} {fd : Fd} {channel : Bytes}

def perform (manager : PubSubManager) : Subscription → PubSubManager
  | .subscribe fd channel => (manager.subscribe fd channel).1
  | .unsubscribe fd channel => (manager.unsubscribe fd channel).1
  | .unsubscribeAll fd => manager.unsubscribeAll fd

def subscribersIn (subscribers : AList fun _ : Bytes => List Fd) (channel : Bytes) : List Fd :=
  (subscribers.lookup channel).getD []

theorem subscribersIn_leaveChannel (fd : Fd) (subscribers : AList fun _ : Bytes => List Fd)
    (channel other : Bytes) :
    subscribersIn (leaveChannel fd subscribers channel) other =
      if other = channel then (subscribersIn subscribers other).erase fd
      else subscribersIn subscribers other := by
  unfold leaveChannel
  by_cases same : other = channel
  · subst same
    rw [if_pos rfl]
    split
    · rename_i absent
      simp [subscribersIn, absent]
    · rename_i fds present
      split <;> simp_all [subscribersIn]
  · rw [if_neg same]
    split
    · rfl
    · split
      · rw [subscribersIn, AList.lookup_erase_ne same, subscribersIn]
      · rw [subscribersIn, AList.lookup_insert_ne same, subscribersIn]

theorem leaveChannels_spec (channels : List Bytes)
    (distinct : ∀ topic, (subscribersIn subscribers topic).Nodup) (fd : Fd) :
    (∀ topic, (subscribersIn (channels.foldl (leaveChannel fd) subscribers) topic).Nodup) ∧
      ∀ topic client, client ∈ subscribersIn (channels.foldl (leaveChannel fd) subscribers) topic ↔
        client ∈ subscribersIn subscribers topic ∧ ¬ (client = fd ∧ topic ∈ channels) := by
  induction channels generalizing subscribers with
  | nil => exact ⟨distinct, by simp⟩
  | cons first channels ih =>
    have entry := subscribersIn_leaveChannel fd subscribers first
    have fewer : ∀ topic, (subscribersIn (leaveChannel fd subscribers first) topic).Nodup := by
      intro topic
      rw [entry]
      split
      · exact (distinct topic).erase fd
      · exact distinct topic
    refine ⟨(ih fewer).1, fun topic client => ?_⟩
    rw [List.foldl_cons, (ih fewer).2, entry, List.mem_cons]
    by_cases here : topic = first
    · rw [if_pos here, (distinct topic).mem_erase_iff]
      tauto
    · rw [if_neg here]
      tauto

section

variable (manager : PubSubManager)

theorem getSubscribers_subscribe (fd : Fd) (channel other : Bytes) :
    (manager.subscribe fd channel).1.getSubscribers other =
      if other = channel then (manager.getSubscribers other).insert fd
      else manager.getSubscribers other := by
  by_cases same : other = channel
  · subst same
    simp [subscribe, getSubscribers]
  · simp [subscribe, getSubscribers, same, AList.lookup_insert_ne same]

theorem channels_subscribe (fd : Fd) (channel : Bytes) (other : Fd) :
    (manager.subscribe fd channel).1.channels other =
      if other = fd then (manager.channels other).insert channel else manager.channels other := by
  by_cases same : other = fd
  · subst same
    simp [subscribe, channels]
  · simp [subscribe, channels, same, AList.lookup_insert_ne same]

theorem getSubscribers_unsubscribe {client : Fd} {other : Bytes}
    (member : client ∈ (manager.unsubscribe fd channel).1.getSubscribers other) :
    client ∈ manager.getSubscribers other := by
  unfold unsubscribe at member
  split at member
  · exact member
  have left := subscribersIn_leaveChannel fd manager.channelSubscribers channel other
  change client ∈ subscribersIn _ other at member
  rw [left] at member
  split at member
  · exact List.mem_of_mem_erase member
  · exact member

theorem channels_unsubscribe (fd : Fd) (channel : Bytes) (other : Fd) :
    (manager.unsubscribe fd channel).1.channels other =
      if other = fd then (manager.channels other).erase channel else manager.channels other := by
  unfold unsubscribe
  split
  · rename_i absent
    by_cases same : other = fd
    · subst same
      simp [channels, absent]
    · rw [if_neg same]
  · rename_i own found
    by_cases same : other = fd
    · subst same
      rw [if_pos rfl]
      simp only [channels, found, Option.getD_some]
      split
      · rename_i gone
        simp [gone]
      · simp
    · rw [if_neg same]
      simp only [channels]
      split
      · rw [AList.lookup_erase_ne same]
      · rw [AList.lookup_insert_ne same]

theorem channels_unsubscribeAll (fd other : Fd) :
    (manager.unsubscribeAll fd).channels other =
      if other = fd then [] else manager.channels other := by
  unfold unsubscribeAll
  by_cases same : other = fd
  · subst same
    rw [if_pos rfl]
    split
    · rename_i absent
      simp [channels, absent]
    · simp [channels]
  · rw [if_neg same]
    split
    · rfl
    · rw [channels, AList.lookup_erase_ne same, channels]

end

/-- Both maps show the same relation, as sets without repetitions that are not empty. -/
structure Represents (manager : PubSubManager) (audience : Audience) : Prop where
  subscribers : ∀ fd channel, fd ∈ manager.getSubscribers channel ↔ (fd, channel) ∈ audience
  channels : ∀ fd channel, channel ∈ manager.channels fd ↔ (fd, channel) ∈ audience
  distinct : ∀ channel, (manager.getSubscribers channel).Nodup
  distinctChannels : ∀ fd, (manager.channels fd).Nodup
  occupied : ∀ channel, manager.channelSubscribers.lookup channel ≠ some []
  filled : ∀ fd, manager.subscriptions.lookup fd ≠ some []

def Occupied (subscribers : AList fun _ : Bytes => List Fd) : Prop :=
  ∀ channel, subscribers.lookup channel ≠ some []

theorem leaveChannel_occupied (occupied : Occupied subscribers) (fd : Fd) (channel : Bytes) :
    Occupied (leaveChannel fd subscribers channel) := by
  intro other
  unfold leaveChannel
  split
  · exact occupied other
  by_cases same : other = channel
  · subst same
    split
    · simp
    · rename_i left
      simpa using left
  · split
    · rw [AList.lookup_erase_ne same]
      exact occupied other
    · rw [AList.lookup_insert_ne same]
      exact occupied other

theorem lookup_channels (filled : ∀ fd, manager.subscriptions.lookup fd ≠ some []) (fd : Fd) :
    manager.subscriptions.lookup fd = none ↔ manager.channels fd = [] := by
  have nonempty := filled fd
  unfold channels
  cases found : manager.subscriptions.lookup fd with
  | none => simp
  | some own =>
    rw [found] at nonempty
    simpa using nonempty

namespace Represents

theorem empty : PubSubManager.empty.Represents ∅ := by
  constructor <;> simp [PubSubManager.empty, getSubscribers, PubSubManager.channels]

section

variable (represents : manager.Represents audience)

include represents

theorem subscribe (fd : Fd) (channel : Bytes) :
    (manager.subscribe fd channel).1.Represents (insert (fd, channel) audience) := by
  constructor
  · intro client topic
    rw [getSubscribers_subscribe, Finset.mem_insert, Prod.mk.injEq, ← represents.subscribers]
    split
    · rw [List.mem_insert_iff]
      tauto
    · tauto
  · intro client topic
    rw [channels_subscribe, Finset.mem_insert, Prod.mk.injEq, ← represents.channels]
    split
    · rw [List.mem_insert_iff]
      tauto
    · tauto
  · intro topic
    rw [getSubscribers_subscribe]
    split
    · exact (represents.distinct topic).insert
    · exact represents.distinct topic
  · intro client
    rw [channels_subscribe]
    split
    · exact (represents.distinctChannels client).insert
    · exact represents.distinctChannels client
  · intro topic
    by_cases same : topic = channel
    · subst same
      have joined : fd ∈ (manager.getSubscribers topic).insert fd := List.mem_insert_self
      simpa [PubSubManager.subscribe] using List.ne_nil_of_mem joined
    · rw [PubSubManager.subscribe, AList.lookup_insert_ne same]
      exact represents.occupied topic
  · intro client
    by_cases same : client = fd
    · subst same
      have joined : channel ∈ (manager.channels client).insert channel := List.mem_insert_self
      simpa [PubSubManager.subscribe] using List.ne_nil_of_mem joined
    · rw [PubSubManager.subscribe, AList.lookup_insert_ne same]
      exact represents.filled client

theorem not_listening (absent : manager.subscriptions.lookup fd = none) (channel : Bytes) :
    (fd, channel) ∉ audience := by
  rw [← represents.channels, (lookup_channels represents.filled fd).mp absent]
  exact List.not_mem_nil

theorem unsubscribe (fd : Fd) (channel : Bytes) :
    (manager.unsubscribe fd channel).1.Represents (audience.erase (fd, channel)) := by
  cases found : manager.subscriptions.lookup fd with
  | none =>
    have same : (manager.unsubscribe fd channel).1 = manager := by
      rw [PubSubManager.unsubscribe, found]
    rw [same, Finset.erase_eq_of_notMem (represents.not_listening found channel)]
    exact represents
  | some own =>
    have left : (manager.unsubscribe fd channel).1.channelSubscribers =
        leaveChannel fd manager.channelSubscribers channel := by
      rw [PubSubManager.unsubscribe, found]
    have subscribers : ∀ topic, (manager.unsubscribe fd channel).1.getSubscribers topic =
        if topic = channel then (manager.getSubscribers topic).erase fd
        else manager.getSubscribers topic := by
      intro topic
      rw [getSubscribers, left]
      exact subscribersIn_leaveChannel fd manager.channelSubscribers channel topic
    constructor
    · intro client topic
      rw [subscribers, Finset.mem_erase, ne_eq, Prod.mk.injEq, ← represents.subscribers]
      split
      · rw [(represents.distinct topic).mem_erase_iff]
        tauto
      · tauto
    · intro client topic
      rw [channels_unsubscribe, Finset.mem_erase, ne_eq, Prod.mk.injEq, ← represents.channels]
      split
      · rw [(represents.distinctChannels client).mem_erase_iff]
        tauto
      · tauto
    · intro topic
      rw [subscribers]
      split
      · exact (represents.distinct topic).erase fd
      · exact represents.distinct topic
    · intro client
      rw [channels_unsubscribe]
      split
      · exact (represents.distinctChannels client).erase channel
      · exact represents.distinctChannels client
    · rw [left]
      exact leaveChannel_occupied represents.occupied fd channel
    · intro client
      rw [PubSubManager.unsubscribe, found]
      dsimp only
      by_cases same : client = fd
      · subst same
        split
        · simp
        · rename_i given
          simpa using given
      · split
        · rw [AList.lookup_erase_ne same]
          exact represents.filled client
        · rw [AList.lookup_insert_ne same]
          exact represents.filled client

theorem unsubscribeAll (fd : Fd) :
    (manager.unsubscribeAll fd).Represents (audience.filter fun pair => pair.1 ≠ fd) := by
  cases found : manager.subscriptions.lookup fd with
  | none =>
    have same : manager.unsubscribeAll fd = manager := by
      rw [PubSubManager.unsubscribeAll, found]
    rw [same, Finset.filter_true_of_mem]
    · exact represents
    · rintro ⟨_, channel⟩ inside rfl
      exact represents.not_listening found channel inside
  | some own =>
    have left : (manager.unsubscribeAll fd).channelSubscribers =
        own.foldl (leaveChannel fd) manager.channelSubscribers := by
      rw [PubSubManager.unsubscribeAll, found]
    have mine : manager.channels fd = own := by rw [PubSubManager.channels, found]; rfl
    obtain ⟨distinct, stayed⟩ := leaveChannels_spec own represents.distinct fd
    constructor
    · intro client topic
      rw [getSubscribers, left]
      refine (stayed topic client).trans ?_
      rw [Finset.mem_filter, ← mine, represents.channels]
      refine (and_congr_left' (represents.subscribers client topic)).trans ?_
      refine and_congr_right fun listens => ?_
      constructor
      · exact fun stays same => stays ⟨same, same ▸ listens⟩
      · exact fun other gone => other gone.1
    · intro client topic
      rw [channels_unsubscribeAll, Finset.mem_filter, ← represents.channels]
      split <;> simp_all
    · intro topic
      rw [getSubscribers, left]
      exact distinct topic
    · intro client
      rw [channels_unsubscribeAll]
      split
      · exact .nil
      · exact represents.distinctChannels client
    · rw [left]
      exact List.foldlRecOn (motive := Occupied) own (leaveChannel fd) represents.occupied
        fun _ occupied channel _ => leaveChannel_occupied occupied fd channel
    · intro client
      rw [PubSubManager.unsubscribeAll, found]
      by_cases same : client = fd
      · subst same
        simp
      · rw [AList.lookup_erase_ne same]
        exact represents.filled client

theorem perform (change : Subscription) :
    (manager.perform change).Represents (audience.change change) := by
  cases change with
  | subscribe fd channel => exact represents.subscribe fd channel
  | unsubscribe fd channel => exact represents.unsubscribe fd channel
  | unsubscribeAll fd => exact represents.unsubscribeAll fd

theorem performAll (changes : List Subscription) :
    (changes.foldl PubSubManager.perform manager).Represents
      (changes.foldl Audience.change audience) := by
  induction changes generalizing manager audience with
  | nil => exact represents
  | cons change changes ih => exact ih (represents.perform change)

theorem channels_length (fd : Fd) : (manager.channels fd).length = (audience.channels fd).card := by
  rw [← List.toFinset_card_of_nodup (represents.distinctChannels fd)]
  congr 1
  ext channel
  rw [List.mem_toFinset, represents.channels, Audience.mem_channels]

theorem subscribers_length (channel : Bytes) :
    (manager.getSubscribers channel).length = (audience.listeners channel).card := by
  rw [← List.toFinset_card_of_nodup (represents.distinct channel)]
  congr 1
  ext fd
  rw [List.mem_toFinset, represents.subscribers, Audience.mem_listeners]

end

end Represents

def Represented (manager : PubSubManager) : Prop := ∃ audience, manager.Represents audience

namespace Represented

section

variable (represented : manager.Represented)

include represented

theorem subscribe (fd : Fd) (channel : Bytes) : (manager.subscribe fd channel).1.Represented :=
  represented.elim fun _ represents => ⟨_, represents.subscribe fd channel⟩

theorem unsubscribe (fd : Fd) (channel : Bytes) : (manager.unsubscribe fd channel).1.Represented :=
  represented.elim fun _ represents => ⟨_, represents.unsubscribe fd channel⟩

theorem unsubscribeAll (fd : Fd) : (manager.unsubscribeAll fd).Represented :=
  represented.elim fun _ represents => ⟨_, represents.unsubscribeAll fd⟩

theorem not_subscriber (fd : Fd) (channel : Bytes) (free : manager.isSubscribed fd = false) :
    fd ∉ manager.getSubscribers channel := by
  obtain ⟨audience, represents⟩ := represented
  have vacant : manager.channels fd = [] := by simpa [isSubscribed] using free
  rw [represents.subscribers, ← represents.channels, vacant]
  exact List.not_mem_nil

end

end Represented

theorem subscribe_count (manager : PubSubManager) (fd : Fd) (channel : Bytes) :
    (manager.subscribe fd channel).2 =
      ((manager.subscribe fd channel).1.channels fd).length := by
  rw [channels_subscribe, if_pos rfl]
  rfl

theorem unsubscribe_count (manager : PubSubManager) (fd : Fd) (channel : Bytes) :
    (manager.unsubscribe fd channel).2 =
      ((manager.unsubscribe fd channel).1.channels fd).length := by
  rw [channels_unsubscribe, if_pos rfl]
  unfold unsubscribe channels
  split
  · rename_i absent
    simp [absent]
  · rename_i own found
    simp [found]

def Delivers (audience : Audience) (channel message : Bytes) (sends : List (Fd × Bytes)) : Prop :=
  ∀ client text, sends.count (client, text) =
    if (client, channel) ∈ audience ∧ text = encodeArray [ascii "message", channel, message]
      then 1 else 0

theorem Represents.publish_delivers (represents : manager.Represents audience)
    (state : HandlerState) (fd : Fd) (channel message : Bytes) (rest : List Bytes) :
    ∃ sends, executeCommand { state with pubsubManager := some manager } fd true
        (ascii "PUBLISH" :: channel :: message :: rest) (ascii "PUBLISH") =
      .ok ⟨{ state with pubsubManager := some manager }, .normal,
        encodeInteger (audience.listeners channel).card, sends, false⟩ ∧
      Delivers audience channel message sends := by
  refine ⟨(manager.getSubscribers channel).map fun subscriber =>
    (subscriber, encodeArray [ascii "message", channel, message]), ?_, fun client text => ?_⟩
  · have found : Command.lookup (ascii "PUBLISH") = some .publish := by decide
    rw [executeCommand, found]
    simp [Command.minArgs, Command.handler, handlePublish, Command.readsClock,
      represents.subscribers_length channel]
  · have once : ((manager.getSubscribers channel).map fun subscriber =>
        (subscriber, encodeArray [ascii "message", channel, message])).Nodup :=
      (represents.distinct channel).map fun _ _ same => congrArg Prod.fst same
    rw [once.count]
    refine if_congr ?_ rfl rfl
    rw [List.mem_map, ← represents.subscribers]
    constructor
    · rintro ⟨subscriber, inside, same⟩
      cases same
      exact ⟨inside, rfl⟩
    · rintro ⟨inside, rfl⟩
      exact ⟨client, inside, rfl⟩

end PubSubManager

variable (changes : List Subscription)

def PubSubManager.after : PubSubManager :=
  changes.foldl perform empty

def Audience.after : Audience :=
  changes.foldl change ∅

theorem Audience.after_concat (last : Subscription) :
    after (changes ++ [last]) = (after changes).change last := by
  rw [after, List.foldl_append]
  rfl

/-- The two maps show one relation and hold no empty sets, the calls return the number of
channels of their connection, and a message is sent once to each listener of its channel. -/
theorem PubSubManager.channels_consistent (changes : List Subscription) :
    (∀ fd channel, fd ∈ (after changes).getSubscribers channel ↔
      channel ∈ (after changes).channels fd) ∧
    (∀ fd channel, channel ∈ (after changes).channels fd ↔
      (fd, channel) ∈ Audience.after changes) ∧
    (∀ channel, (after changes).channelSubscribers.lookup channel ≠ some []) ∧
    (∀ fd, (after changes).subscriptions.lookup fd ≠ some []) ∧
    (∀ fd channel, ((after changes).subscribe fd channel).2 =
      ((Audience.after (changes ++ [.subscribe fd channel])).channels fd).card) ∧
    (∀ fd channel, ((after changes).unsubscribe fd channel).2 =
      ((Audience.after (changes ++ [.unsubscribe fd channel])).channels fd).card) ∧
    (∀ fd, (after changes).isSubscribed fd = true ↔
      0 < ((Audience.after changes).channels fd).card) ∧
    ∀ (state : HandlerState) fd channel message rest, ∃ sends,
      executeCommand { state with pubsubManager := some (after changes) } fd true
          (ascii "PUBLISH" :: channel :: message :: rest) (ascii "PUBLISH") =
        .ok ⟨{ state with pubsubManager := some (after changes) }, .normal,
          encodeInteger ((Audience.after changes).listeners channel).card, sends, false⟩ ∧
        Delivers (Audience.after changes) channel message sends := by
  have represents : (after changes).Represents (Audience.after changes) :=
    Represents.empty.performAll changes
  refine ⟨?_, represents.channels, represents.occupied, represents.filled, ?_, ?_, ?_,
    represents.publish_delivers⟩
  · intro fd channel
    rw [represents.subscribers, represents.channels]
  · intro fd channel
    rw [subscribe_count, (represents.subscribe fd channel).channels_length,
      Audience.after_concat]
    rfl
  · intro fd channel
    rw [unsubscribe_count, (represents.unsubscribe fd channel).channels_length,
      Audience.after_concat]
    rfl
  · intro fd
    rw [← represents.channels_length, isSubscribed, List.length_pos_iff]
    simp

end Credis
