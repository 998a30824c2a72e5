import Voxhold.Account.Hierarchy
import Voxhold.Antiabuse.HTTPBudget
import Voxhold.Antiabuse.Login
import Voxhold.Backend.Credentials
import Voxhold.Backend.Memberships
import Voxhold.Calls.Admission
import Voxhold.Calls.RevokedDevices
import Voxhold.Community.ScheduledOnce
import Voxhold.E2ee.Devices
import Voxhold.Hub.EncryptionMode
import Voxhold.Hub.GhostVoice
import Voxhold.Hub.PresenceCount
import Voxhold.Hub.RoomsAgree
import Voxhold.Hub.SessionFailure
import Voxhold.Hub.SfuAgreement
import Voxhold.Hub.StreamHistory
import Voxhold.Hub.StreamVoice
import Voxhold.Hub.VoiceHistory
import Voxhold.Keylock.Keylock
import Voxhold.Linkpreview.Slots
import Voxhold.Mediahandshake.Deadline
import Voxhold.Message.Idempotency
import Voxhold.Message.Shown
import Voxhold.Message.Slowmode
import Voxhold.Message.Sync
import Voxhold.Message.Threads
import Voxhold.Notifications.Once
import Voxhold.Permissions.Enforced
import Voxhold.Realtime.ChatBurst
import Voxhold.Realtime.Confidentiality
import Voxhold.Realtime.PresenceView
import Voxhold.Realtime.Replies
import Voxhold.Realtime.Turns
import Voxhold.Stream.KeyFrames
import Voxhold.Stream.LiveRooms
import Voxhold.Stream.Negotiation
import Voxhold.Voice.RoomsKept
import Voxhold.Webrtcrecovery.Controller
