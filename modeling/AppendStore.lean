import AppendStore.Proofs.Bytes.Order
import AppendStore.Proofs.Bytes.Blend
import AppendStore.Proofs.Bytes.Text
import AppendStore.Proofs.Checksum.Burst
import AppendStore.Proofs.Contents.Window
import AppendStore.ByteStore.Plain
import AppendStore.Proofs.ByteStore.Buffer
import AppendStore.Proofs.ByteStore.Calls
import AppendStore.Proofs.ByteStore.Torn
import AppendStore.Proofs.Disk.FileName
import AppendStore.Proofs.Disk.Spelling
import AppendStore.Proofs.Disk.Path
import AppendStore.Proofs.Disk.Directory
import AppendStore.Proofs.Disk.Linked
import AppendStore.Proofs.Disk.Naming
import AppendStore.Proofs.Disk.Kinds
import AppendStore.Proofs.Disk.Listing
import AppendStore.Proofs.Disk.Beside
import AppendStore.TimestampedKey
import AppendStore.Proofs.TimestampedKey
import AppendStore.Proofs.Transaction.Codec
import AppendStore.Proofs.Transaction.Canonical
import AppendStore.Proofs.Segment.Cursors
import AppendStore.Proofs.Segment.Record
import AppendStore.Proofs.Segment.Append
import AppendStore.Proofs.Segment.Opening
import AppendStore.Proofs.Segment.Landing
import AppendStore.Proofs.Segment.Session
import AppendStore.Proofs.Segment.StoredWord
import AppendStore.Proofs.Segment.Recovery
import AppendStore.Proofs.Segment.Claims
import AppendStore.Proofs.Segment.Ledger
import AppendStore.Proofs.Segment.Intact
import AppendStore.Proofs.Segment.Regions
import AppendStore.Proofs.Segment.Listing
import AppendStore.Proofs.Segment.Alike
import AppendStore.Proofs.Segment.Reading
import AppendStore.Proofs.Segment.Bounds
import AppendStore.Proofs.ValueFile.Record
import AppendStore.Proofs.ValueFile.Damage
import AppendStore.Proofs.ValueFile.Reading
import AppendStore.Proofs.ValueFile.Session
import AppendStore.Proofs.Agreement
import AppendStore.Proofs.Transfers
import AppendStore.Proofs.Host.Segments
import AppendStore.Proofs.Host.ValueFiles
import AppendStore.Proofs.Host.Backing
import AppendStore.Proofs.Journal.Files
import AppendStore.Proofs.Journal.Held
import AppendStore.Proofs.Journal.Active
import AppendStore.Proofs.Journal.Opening
import AppendStore.Proofs.Journal.Reading
import AppendStore.Proofs.Journal.Session
import AppendStore.Proofs.Journal.Rotation
import AppendStore.Proofs.Journal.Frame
import AppendStore.Proofs.Journal.Listing
import AppendStore.Proofs.Journal.Keeping
import AppendStore.Proofs.Journal.Obstacle
import AppendStore.Proofs.Journal.Creation
import AppendStore.Proofs.Journal.Standing
import AppendStore.Proofs.ValueFolder.Files
import AppendStore.Proofs.ValueFolder.Frame
import AppendStore.Proofs.ValueFolder.Session
import AppendStore.Proofs.ValueFolder.Handles
import AppendStore.Config.Json
import AppendStore.Text.Diagnostic
import AppendStore.Proofs.Store.Errors
import AppendStore.Proofs.Store.Values
import AppendStore.Proofs.Store.Order
import AppendStore.Proofs.Store.Operations
import AppendStore.Proofs.Store.Session
import AppendStore.Proofs.Store.Settings
