import Phrasebook.Case
import Phrasebook.Interner.Registry
import Phrasebook.Proofs.Collation
import Phrasebook.Proofs.Fingerprint.WordOrder
import Phrasebook.Proofs.Inspect
import Phrasebook.Proofs.Interner.Events
import Phrasebook.Proofs.Interner.Overflow
import Phrasebook.Proofs.Interner.Ownership
import Phrasebook.Proofs.Interner.Packing
import Phrasebook.Proofs.Reading
import Phrasebook.Proofs.Verb.Words
