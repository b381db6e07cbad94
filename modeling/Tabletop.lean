import Tabletop.Text.Quoted
import Tabletop.Json.Reader
import Tabletop.Json.Writer
import Tabletop.Moment.Iso
import Tabletop.Record.Field
import Tabletop.Dict
import Tabletop.IdSet
import Tabletop.Character.Reading
import Tabletop.Character.Writing
import Tabletop.Ruleset.Check
import Tabletop.Failure
import Tabletop.Ruleset.Import
import Tabletop.Sheet
import Tabletop.Store
import Tabletop.Store.Backup
import Tabletop.Advancement.Advance
import Tabletop.Command
import Tabletop.Yaml
import Tabletop.Proofs.Applying
import Tabletop.Proofs.LevelText
import Tabletop.Proofs.LevelBlock
import Tabletop.Proofs.Chronicle
import Tabletop.Proofs.Shelf
import Tabletop.Proofs.Digits
import Tabletop.Proofs.MomentText
import Tabletop.Proofs.Calendar
import Tabletop.Proofs.Document
import Tabletop.Proofs.CharacterRecord
import Tabletop.Proofs.AbilityKeys
import Tabletop.Proofs.RecordReading
import Tabletop.Proofs.Fingerprint
import Tabletop.Proofs.SoundCharacter
import Tabletop.Proofs.DiskWrites
import Tabletop.Proofs.StoredCharacter
import Tabletop.Proofs.StoredRuleset
import Tabletop.Proofs.Ascent
import Tabletop.Proofs.Walking
import Tabletop.Proofs.Climbing
import Tabletop.Proofs.Resuming
import Tabletop.Proofs.LaidDown
import Tabletop.Proofs.LevelByLevel
import Tabletop.Proofs.FieldReaders
import Tabletop.Proofs.Numerals
import Tabletop.Proofs.DocumentCheck
import Tabletop.Proofs.Importing
import Tabletop.Proofs.ParsedRuleset
import Tabletop.Proofs.Rereading
import Tabletop.Proofs.OwnFeatures
import Tabletop.Proofs.Alike
import Tabletop.Proofs.RecordNames
import Tabletop.Proofs.Mirrors
import Tabletop.Proofs.Archive
import Tabletop.Proofs.OnRecord
import Tabletop.Proofs.Reapplying
import Tabletop.Proofs.AnyOrder
import Tabletop.Proofs.SettlingKeys
import Tabletop.Proofs.Steady
import Tabletop.Proofs.LeftAlone
import Tabletop.Proofs.Halting
import Tabletop.Proofs.WalkEnding
import Tabletop.Proofs.Stopping
import Tabletop.Proofs.Foreseen
import Tabletop.Proofs.Planned
import Tabletop.Proofs.IsoText
import Tabletop.Proofs.Restoring
import Tabletop.Proofs.Deposits
import Tabletop.Proofs.Stocked
import Tabletop.Proofs.BackupTrip
import Tabletop.Proofs.JudgedEntries
import Tabletop.Proofs.BackupEntries
import Tabletop.Proofs.CleanLedger
import Tabletop.Proofs.CleanAdvance
import Tabletop.Proofs.Outcome
import Tabletop.Proofs.ThereAndBack
import Tabletop.Proofs.MomentOrder
import Tabletop.Proofs.Onward
import Tabletop.Proofs.Dated
import Tabletop.Proofs.LaterTimes
import Tabletop.Proofs.Session
import Tabletop.Proofs.WrittenForm
import Tabletop.Proofs.AgreeingFields
import Tabletop.Proofs.KeptLevels
import Tabletop.Proofs.KeptClasses
import Tabletop.Proofs.KeptPools
import Tabletop.Proofs.KeptDocument
import Tabletop.Proofs.Reopened
import Tabletop.Proofs.Undoing
import Tabletop.Proofs.DigitCase
import Tabletop.Proofs.PoolKeys
import Tabletop.Proofs.Landing
import Tabletop.Proofs.LevelTables
import Tabletop.Proofs.Rendering
import Tabletop.Proofs.Admission
import Tabletop.Proofs.FiledLevels
import Tabletop.Proofs.OlderNames
import Tabletop.Proofs.OlderRecords
import Tabletop.Proofs.BuiltLevels
import Tabletop.Proofs.SameSkips
import Tabletop.Proofs.Fates
import Tabletop.Proofs.Omissions
import Tabletop.Proofs.SoundRuleset
import Tabletop.Proofs.RecordFiles
import Tabletop.Proofs.Roster
import Tabletop.Proofs.Sightings
import Tabletop.Proofs.Tracking
import Tabletop.Proofs.LostPuts
import Tabletop.Proofs.SpelledNumbers
import Tabletop.Proofs.SpelledDocument
import Tabletop.Proofs.Offers
import Tabletop.Proofs.RecordPlaces
import Tabletop.Proofs.LedgerViews
import Tabletop.Proofs.TextOrder
import Tabletop.Proofs.Catalogue
import Tabletop.Proofs.DisguisedKeys
import Tabletop.Proofs.LastingKeys
